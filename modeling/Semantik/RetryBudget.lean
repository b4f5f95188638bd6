import Mathlib.Algebra.Order.BigOperators.Group.List
import Semantik.MalformedMeaning

/-!
# Budgets

A larger budget changes a call only where the smaller one was used up on a transient error: the call
then goes on from there. Within a budget of `n` there are at most `n` sleeps of at most an hour each,
and without hints of the server they follow the schedule.
-/

namespace Semantik

variable {α : Type}

/-- The second call goes on where the first one had used up the budget `n` on a transient error. -/
structure GoesOn (n : UInt32) (call call' : Call α) : Prop where
  used : call.calls.getLast? = some n
  failed : ∃ err code, call.phase = .returned (.error err) ∧ err.code = some code ∧ code.IsTransient
  calls : call.calls <+: call'.calls
  sleeps : ∃ d, call.sleeps ++ [d] <+: call'.sleeps

theorem shouldRetry_mono {n m : UInt32} (h : n ≤ m) {attempt : UInt32} {err : Error} {d : Duration}
    (hd : (TransientRetry.new n).shouldRetry attempt err = some d) :
    (TransientRetry.new m).shouldRetry attempt err = some d := by
  rw [TransientRetry.shouldRetry_eq_some_iff] at hd ⊢
  exact ⟨UInt32.lt_of_lt_of_le hd.1 h, hd.2⟩

theorem exists_code_of_isTransient {err : Error} (h : err.IsTransient) :
    ∃ code, err.code = some code ∧ code.IsTransient := by
  obtain ⟨code, message, requestId, retryAfter, httpStatus, rfl, hcode⟩ := h
  exact ⟨code, rfl, hcode⟩

/-- Attempts before the end of the loop were within the budget. -/
theorem EndsLoop.le_budget {n attempt : UInt32} {f : UInt32 → Future (Except Error α)}
    (h : EndsLoop (.withBudget n) f attempt) : attempt ≤ n := by
  by_contra hlt
  obtain ⟨err, d, -, hretry⟩ := h.retried n (UInt32.not_le.1 hlt)
  exact absurd ((TransientRetry.shouldRetry_eq_some_iff _ _ _ _).1 hretry).1 (UInt32.lt_irrefl n)

theorem runWithRetry_budget {n m : UInt32} (h : n ≤ m) (f : UInt32 → Future (Except Error α))
    (rounds : ℕ) : runWithRetry (.withBudget m) f rounds = runWithRetry (.withBudget n) f rounds ∨
      GoesOn n (runWithRetry (.withBudget n) f rounds) (runWithRetry (.withBudget m) f rounds) := by
  refine (RetryLoop.run_withRetry (retryLoop (Client.withBudget n).retry f)
    (fun _ _ _ hd => shouldRetry_mono h hd) rounds).imp_right ?_
  rintro ⟨k, err, d, ⟨hphase, hlast, hretry⟩, hcalls, hsleeps⟩
  obtain ⟨hkm, htransient, -⟩ := (TransientRetry.shouldRetry_eq_some_iff _ _ _ _).1 hretry
  obtain ⟨attempt, hlt, hends, hattempt⟩ := exists_endsLoop hphase
  have hk : attempt = k := Option.some.inj ((hends.returned hattempt hlt).2.symm.trans hlast)
  -- the smaller budget declined the transient error, so it is used up
  have hdeclined := hends.declined err hattempt
  have hnk : n ≤ k := by
    by_contra hlt
    have hsome := (TransientRetry.isSome_shouldRetry (.new n) k err).2
      ⟨UInt32.not_le.1 hlt, htransient⟩
    rw [← hk] at hsome
    exact Option.isSome_iff_ne_none.1 hsome hdeclined
  have hn : k = n := UInt32.le_antisymm (hk ▸ hends.le_budget) hnk
  obtain ⟨code, hcode⟩ := exists_code_of_isTransient htransient
  exact ⟨hn ▸ hlast, ⟨err, code, hphase, hcode⟩, hcalls, ⟨_, hsleeps⟩⟩

theorem sleeps_mapErr (g : Error → Error) (call : Call α) : (mapErr g call).sleeps = call.sleeps := by
  unfold mapErr
  split <;> rfl

theorem GoesOn.mapErr_subscribeSetup {n : UInt32} {call call' : Call α} (h : GoesOn n call call') :
    GoesOn n (mapErr .subscribeSetup call) (mapErr .subscribeSetup call') := by
  obtain ⟨hused, ⟨err, code, hphase, hcode⟩, hcalls, hsleeps⟩ := h
  refine ⟨?_, ⟨.subscribeSetup err, code, ?_, hcode⟩, ?_, ?_⟩
  · rwa [calls_mapErr]
  · unfold mapErr
    rw [hphase]
  · rwa [calls_mapErr, calls_mapErr]
  · simpa only [sleeps_mapErr] using hsleeps

theorem preflighted_budget {n : UInt32} {check : Except Error Unit} {call call' : Call α}
    (h : call' = call ∨ GoesOn n call call') :
    preflighted check call' = preflighted check call ∨
      GoesOn n (preflighted check call) (preflighted check call') := by
  match check with
  | .ok () => exact h
  | .error err => exact .inl rfl

/-- On the four endpoints with retries a larger budget gives the same call, or goes on where the
smaller one was used up on a transient error. So it keeps every success and every other error. -/
theorem larger_budget {n m : UInt32} (h : n ≤ m) (deps : Dependencies) (network : Network)
    (rounds : ℕ) :
    (∀ req, let call n := Client.publish (.withBudget n) deps network req rounds
      call m = call n ∨ GoesOn n (call n) (call m)) ∧
    (∀ req, let call n := Client.search (.withBudget n) deps network req rounds
      call m = call n ∨ GoesOn n (call n) (call m)) ∧
    (∀ req, let call n := Client.lint (.withBudget n) deps network req rounds
      call m = call n ∨ GoesOn n (call n) (call m)) ∧
    ∀ req, let call n := Client.subscribe (.withBudget n) deps network req rounds
      call m = call n ∨ GoesOn n (call n) (call m) := by
  refine ⟨?_, ?_, ?_, ?_⟩
  · exact fun req => preflighted_budget (runWithRetry_budget h _ rounds)
  · exact fun req => preflighted_budget (runWithRetry_budget h _ rounds)
  · exact fun req => preflighted_budget (runWithRetry_budget h _ rounds)
  · intro req
    apply preflighted_budget
    obtain heq | hgoes := runWithRetry_budget h
      (fun attempt => subscribeOnce deps (network (req.toVec deps) attempt)) rounds
    · exact .inl (congrArg (mapErr .subscribeSetup) heq)
    · exact .inr hgoes.mapErr_subscribeSetup

/-- The server is busy once. Without a budget the call fails there, and with one it goes on. -/
theorem larger_budget_five : (0 : UInt32) ≤ 5 ∧
    let call n := Client.publish (.withBudget n) .sample
      (busyThen ⟨some (.error ⟨"connection reset"⟩), 0⟩) .sample 3
    GoesOn 0 (call 0) (call 5) := by
  refine ⟨by decide, ?_⟩
  intro call
  apply ((larger_budget (by decide) .sample _ 3).1 .sample).resolve_left
  intro hsame
  exact absurd (congrArg RetryLoop.Trace.calls hsame) (by decide)

theorem retryLoop_next {α : Type} (policy : RetryPolicy) (f : UInt32 → Future (Except Error α))
    (i : ℕ) : (retryLoop policy f).next (.ofNat i) = some (.ofNat (i + 1)) ∨
      (retryLoop policy f).next (.ofNat i) = none := by
  rw [retryLoop_next_ofNat]
  split_ifs
  · exact .inl rfl
  · exact .inr rfl

section

variable {n : UInt32} {f : UInt32 → Future (Except Error α)} {rounds : ℕ}

/-- The sleep number `i` follows the attempt number `i`, which is within the budget. -/
theorem exists_of_sleep {i : ℕ} (hi : i < (runWithRetry (.withBudget n) f rounds).sleeps.length) :
    UInt32.ofNat i < n ∧ ∃ err, f (.ofNat i) = some (.error err) ∧ err.IsTransient ∧
      (runWithRetry (.withBudget n) f rounds).sleeps[i] =
        min (err.retryAfter.getD (fallbackBackoff (.ofNat i))) (.fromSecs 3600) := by
  obtain ⟨err, d, herr, hretry, hd⟩ :=
    RetryLoop.retried_getElem (retryLoop (Client.withBudget n).retry f) rfl (retryLoop_next _ f) hi
  obtain ⟨hlt, htransient, rfl⟩ := (TransientRetry.shouldRetry_eq_some_iff _ _ _ _).1 hretry
  exact ⟨hlt, err, herr, htransient, hd⟩

theorem length_sleeps_le : (runWithRetry (.withBudget n) f rounds).sleeps.length ≤ n.toNat := by
  by_contra hlong
  have hlt := (exists_of_sleep (not_le.1 hlong)).1
  rw [UInt32.ofNat_toNat] at hlt
  exact UInt32.lt_irrefl n hlt

theorem sleep_le {d : Duration} (hd : d ∈ (runWithRetry (.withBudget n) f rounds).sleeps) :
    d ≤ .fromSecs 3600 := by
  obtain ⟨k, e, d', -, -, rfl⟩ := RetryLoop.retried_of_mem_sleeps _ hd
  exact min_le_right _ _

theorem schedule_le (i : ℕ) : schedule i ≤ .fromSecs 10 := by
  rcases i with _ | _ | _ | i <;> simp [schedule, Duration.fromMillis, Duration.fromSecs]

def Hintless (f : UInt32 → Future (Except Error α)) : Prop :=
  ∀ k err, f k = some (.error err) → err.retryAfter = none

/-- Without hints the sleeps follow the schedule. -/
theorem sleeps_of_hintless (h : Hintless f) :
    (runWithRetry (.withBudget n) f rounds).sleeps =
      (List.range (runWithRetry (.withBudget n) f rounds).sleeps.length).map schedule := by
  apply List.ext_getElem
  · simp
  · intro i hi _
    have hle : i ≤ n.toNat := hi.le.trans length_sleeps_le
    obtain ⟨-, err, herr, -, hd⟩ := exists_of_sleep hi
    have hcap : schedule i ≤ .fromSecs 3600 := (schedule_le i).trans (by decide)
    rw [hd, h _ _ herr, Option.getD_none, fallbackBackoff_eq, toNat_ofNat_of_le hle,
      min_eq_left hcap]
    simp

end

def totalSleep (call : Call α) : ℕ := call.sleeps.sum

def scheduleTotal (k : ℕ) : Duration := ((List.range k).map schedule).sum

theorem scheduleTotal_succ (k : ℕ) : scheduleTotal (k + 1) = scheduleTotal k + schedule k := by
  simp [scheduleTotal, List.range_succ]

theorem scheduleTotal_mono {k k' : ℕ} (h : k ≤ k') : scheduleTotal k ≤ scheduleTotal k' := by
  induction h with
  | refl => exact le_rfl
  | step _ ih =>
      rw [scheduleTotal_succ]
      exact ih.trans (Nat.le_add_right _ _)

theorem schedule_add_three (k : ℕ) : schedule (k + 3) = .fromSecs 10 := by simp only [schedule]

theorem scheduleTotal_three : scheduleTotal 3 = .fromMillis 7100 := by
  simp [scheduleTotal, schedule, List.range_succ, Duration.fromMillis, Duration.fromSecs]

/-- From the fourth retry on every retry adds ten seconds. -/
theorem scheduleTotal_add (k : ℕ) :
    scheduleTotal (k + 3) = .fromMillis 7100 + k * Duration.fromSecs 10 := by
  induction k with
  | zero => rw [Nat.zero_add, scheduleTotal_three, Nat.zero_mul, Nat.add_zero]
  | succ k ih =>
      rw [Nat.add_right_comm, scheduleTotal_succ, ih, schedule_add_three, Nat.succ_mul,
        Nat.add_assoc]

/-- A call makes at most `n` sleeps of at most an hour, and those of the schedule if its attempts
give no hints. -/
structure WithinBudget (n : UInt32) (f : UInt32 → Future (Except Error α)) (call : Call α) :
    Prop where
  length : call.sleeps.length ≤ n.toNat
  total : totalSleep call ≤ n.toNat * Duration.fromSecs 3600
  hintless : Hintless f → call.sleeps = (List.range call.sleeps.length).map schedule ∧
    totalSleep call = scheduleTotal call.sleeps.length ∧ totalSleep call ≤ scheduleTotal n.toNat

theorem withinBudget_runWithRetry (n : UInt32) (f : UInt32 → Future (Except Error α)) (rounds : ℕ) :
    WithinBudget n f (runWithRetry (.withBudget n) f rounds) := by
  have hlength : (runWithRetry (.withBudget n) f rounds).sleeps.length ≤ n.toNat :=
    length_sleeps_le
  refine ⟨hlength, ?_, ?_⟩
  · have hsum := List.sum_le_card_nsmul (runWithRetry (.withBudget n) f rounds).sleeps
      (Duration.fromSecs 3600) fun d hd => sleep_le hd
    exact hsum.trans (Nat.mul_le_mul_right _ hlength)
  · intro h
    have hsleeps : (runWithRetry (.withBudget n) f rounds).sleeps =
        (List.range (runWithRetry (.withBudget n) f rounds).sleeps.length).map schedule :=
      sleeps_of_hintless h
    have htotal : totalSleep (runWithRetry (.withBudget n) f rounds) =
        scheduleTotal (runWithRetry (.withBudget n) f rounds).sleeps.length := by
      rw [totalSleep, scheduleTotal, ← hsleeps]
    exact ⟨hsleeps, htotal, htotal ▸ scheduleTotal_mono hlength⟩

section

variable {n : UInt32} {f : UInt32 → Future (Except Error α)} {call : Call α}
  (h : WithinBudget n f call)
include h

theorem WithinBudget.preflighted (check : Except Error Unit) :
    WithinBudget n f (preflighted check call) := by
  match check with
  | .ok () => exact h
  | .error err => exact ⟨Nat.zero_le _, Nat.zero_le _, fun _ => ⟨rfl, rfl, Nat.zero_le _⟩⟩

theorem WithinBudget.mapErr (g : Error → Error) : WithinBudget n f (mapErr g call) := by
  have htotal : totalSleep (Semantik.mapErr g call) = totalSleep call :=
    congrArg List.sum (sleeps_mapErr g call)
  refine ⟨?_, ?_, ?_⟩
  · rw [sleeps_mapErr]
    exact h.length
  · rw [htotal]
    exact h.total
  · rw [htotal, sleeps_mapErr]
    exact h.hintless

end

/-- No call with budget `n` sleeps more than `n` times or `n` hours, on the four endpoints with
retries and whatever the server answers. If no error has a hint its sleeps are the first waits of the
schedule, which are 7.1 seconds for three retries and ten seconds for each further one. -/
theorem sleeps_within_budget (n : UInt32) (deps : Dependencies) (network : Network) (rounds : ℕ) :
    (∀ req : PublishRequest, WithinBudget n
      (fun k => sendOnceJson deps (Client.publishResponses deps) (network (req.toVec deps) k))
      (Client.publish (.withBudget n) deps network req rounds)) ∧
    (∀ req : SearchRequest, WithinBudget n
      (fun k => sendOnceJson deps (Client.searchResponses deps) (network (req.toVec deps) k))
      (Client.search (.withBudget n) deps network req rounds)) ∧
    (∀ req : LintRequest, WithinBudget n
      (fun k => sendOnceJson deps (Client.lintResponses deps) (network (req.toVec deps) k))
      (Client.lint (.withBudget n) deps network req rounds)) ∧
    (∀ req : SubscribeRequest, WithinBudget n
      (fun k => subscribeOnce deps (network (req.toVec deps) k))
      (Client.subscribe (.withBudget n) deps network req rounds)) ∧
    ∀ k, scheduleTotal (k + 3) = .fromMillis 7100 + k * Duration.fromSecs 10 := by
  refine ⟨?_, ?_, ?_, ?_, scheduleTotal_add⟩
  · exact fun req => (withinBudget_runWithRetry n _ rounds).preflighted _
  · exact fun req => (withinBudget_runWithRetry n _ rounds).preflighted _
  · exact fun req => (withinBudget_runWithRetry n _ rounds).preflighted _
  · exact fun req => ((withinBudget_runWithRetry n _ rounds).mapErr _).preflighted _

end Semantik
