import Semantik.CallOutcome
import Semantik.ConcurrentCalls
import Semantik.SubscribeSession

/-!
# Retries add nothing

A call under way is sent again only after a transient refusal. Where such refusals leave the server
as it was, concurrent calls have had the effect of some of them being served one after the other,
each once, and a call that has returned got its result at its place in this order.
-/

namespace Semantik

def RetryPolicy.OnlyTransient (policy : RetryPolicy) : Prop :=
  ∀ k err d, policy k err = some d → err.IsTransient

theorem TransientRetry.onlyTransient (n : UInt32) :
    (TransientRetry.new n).shouldRetry.OnlyTransient :=
  fun _ _ _ h => ((shouldRetry_eq_some_iff _ _ _ _).1 h).2.1

theorem ApiCall.onlyTransient_policy {retry : RetryPolicy} (h : retry.OnlyTransient)
    (call : ApiCall) : (call.policy retry).OnlyTransient := by
  cases call with
  | health =>
      intro k err d hretry
      cases hretry
  | _ => exact h

variable {deps : Dependencies} {x : Exchange}

theorem About.transientRefusal {err : Error} (h : About deps x err) (htransient : err.IsTransient) :
    TransientRefusal deps x := by
  obtain ⟨code, message, requestId, retryAfter, status, rfl, hcode⟩ := htransient
  obtain rfl | ⟨resp, bytes, hrefused, rfl⟩ := h.code code rfl
  · exact absurd hcode (by decide)
  · refine ⟨resp, bytes, hrefused.send, hrefused.refused, hrefused.bytes, ?_⟩
    obtain ⟨_, _, _, heq, -⟩ := exists_decodeErrorResponse deps resp.status resp.headers bytes x.now
    rw [← isTransient_decodeErrorResponse deps resp.status resp.headers bytes x.now, heq,
      Error.isTransient_api]
    exact hcode

namespace ApiCall

theorem about_once (call : ApiCall) {err : Error} (h : call.once deps x = some (.error err)) :
    About deps x err := by
  cases call with
  | publish req => exact about_sendOnceJson h
  | search req => exact about_sendOnceJson h
  | lint req => exact about_sendOnceJson h
  | subscribe req => exact about_subscribeOnce h
  | health => exact about_health h

theorem isSuccess_of_once (call : ApiCall) {v : call.Result}
    (h : call.once deps x = some (.ok v)) :
    ∃ resp, x.send = some (.ok resp) ∧ isSuccess resp.status = true := by
  have hdelivers : ∀ {α : Type} {ty : ResponseType α} {v : α}, sendOnceJson deps ty x = some (.ok v) →
      ∃ resp, x.send = some (.ok resp) ∧ isSuccess resp.status = true := by
    intro α ty v h
    obtain ⟨resp, _, _, harrived, hstatus, -⟩ := sendOnceJson_eq_ok_iff.1 h
    exact ⟨resp, harrived.send, hstatus⟩
  cases call with
  | publish req => exact hdelivers h
  | search req => exact hdelivers h
  | lint req => exact hdelivers h
  | subscribe req =>
      obtain ⟨resp, _, hsend, hopens, -⟩ := opensWith_of_subscribeOnce h
      exact ⟨resp, hsend, hopens.1⟩
  | health =>
      obtain ⟨resp, _, harrived, hstatus⟩ := health_eq_ok_iff.1 h
      exact ⟨resp, harrived.send, hstatus⟩

/-- A refusal is not a result. -/
theorem exists_error_of_refusal (call : ApiCall) {r : Except Error call.Result}
    (hrefusal : TransientRefusal deps x) (h : call.once deps x = some r) : ∃ err, r = .error err := by
  cases r with
  | error err => exact ⟨err, rfl⟩
  | ok v =>
      obtain ⟨resp, hsend, hstatus⟩ := call.isSuccess_of_once h
      obtain ⟨resp', _, hsend', hrefused, -⟩ := hrefusal
      cases hsend.symm.trans hsend'
      exact absurd hstatus hrefused

end ApiCall

namespace System

variable {ι σ H : Type} (sys : System ι σ H)

def serveAll (order : List ι) : σ := order.foldl sys.after sys.start

/-- A server that asks to be tried again later has done nothing. -/
def RefusesCleanly : Prop := ∀ s i, TransientRefusal sys.deps (sys.answer s i) → sys.after s i = s

open Classical in
/-- The calls that were not answered with a transient refusal, in the order of these answers. -/
noncomputable def accepted (w : World ι σ sys.call) : List ι :=
  (w.log.filter fun entry => ¬ TransientRefusal sys.deps entry.2.2).map Prod.fst

def ServedAs (order : List ι) (i : ι) (r : Except Error (sys.call i).Result) : Prop :=
  ∃ before later, order = before ++ i :: later ∧
    (sys.call i).once sys.deps (sys.answer (sys.serveAll before) i) = some r

/-- The accepted calls were served once, and the others have had no effect. -/
structure Served (w : World ι σ sys.call) : Prop where
  nodup : (sys.accepted w).Nodup
  server : w.server = sys.serveAll (sys.accepted w)
  done : ∀ i ∈ sys.accepted w, ∀ k, (w.state i).phase ≠ .ready k
  result : ∀ i r, (w.state i).phase = .returned r →
    sys.ServedAs (sys.accepted w) i r ∨ i ∉ sys.accepted w ∧ ∃ err, r = .error err

variable {sys}

theorem ServedAs.append {order : List ι} {i : ι} {r : Except Error (sys.call i).Result}
    (h : sys.ServedAs order i r) (j : ι) : sys.ServedAs (order ++ [j]) i r := by
  obtain ⟨before, later, rfl, h⟩ := h
  exact ⟨before, later ++ [j], by simp, h⟩

theorem served_init : sys.Served sys.init where
  nodup := List.nodup_nil
  server := rfl
  done i hi := by cases hi
  result i r h := by
    refine .inr ⟨List.not_mem_nil, ?_⟩
    unfold init at h
    dsimp only at h
    cases hcheck : (sys.call i).validate sys.deps.printable with
    | error err =>
        rw [hcheck] at h
        cases h
        exact ⟨err, rfl⟩
    | ok u =>
        rw [hcheck] at h
        cases h

variable [DecidableEq ι]

theorem accepted_of_refusal {w : World ι σ sys.call} {j : ι} {k : UInt32}
    (hk : (w.state j).phase = .ready k) (h : TransientRefusal sys.deps (sys.answer w.server j)) :
    sys.accepted (sys.step w j) = sys.accepted w := by
  rw [sys.step_of_ready hk, accepted, List.filter_append, List.map_append]
  simp [accepted, h]

theorem accepted_of_not_refusal {w : World ι σ sys.call} {j : ι} {k : UInt32}
    (hk : (w.state j).phase = .ready k) (h : ¬ TransientRefusal sys.deps (sys.answer w.server j)) :
    sys.accepted (sys.step w j) = sys.accepted w ++ [j] := by
  rw [sys.step_of_ready hk, accepted, List.filter_append, List.map_append]
  simp [accepted, h]

theorem accepted_isPrefix (w : World ι σ sys.call) (j : ι) :
    sys.accepted w <+: sys.accepted (sys.step w j) := by
  by_cases hready : ∃ k, (w.state j).phase = .ready k
  · obtain ⟨k, hk⟩ := hready
    by_cases h : TransientRefusal sys.deps (sys.answer w.server j)
    · exact (accepted_of_refusal hk h).symm ▸ List.prefix_rfl
    · rw [accepted_of_not_refusal hk h]
      exact List.prefix_append _ _
  · exact (sys.step_of_halted (not_exists.1 hready)).symm ▸ List.prefix_rfl

/-- Where the answer is a transient refusal, the call goes on, or fails without an effect. -/
theorem Served.refused (hclean : sys.RefusesCleanly) {w : World ι σ sys.call} (h : sys.Served w)
    {j : ι} {k : UInt32} (hk : (w.state j).phase = .ready k)
    (hrefusal : TransientRefusal sys.deps (sys.answer w.server j)) : sys.Served (sys.step w j) := by
  have haccepted := accepted_of_refusal hk hrefusal
  have hj : j ∉ sys.accepted w := fun hmem => h.done j hmem k hk
  have hother : ∀ i ≠ j, (sys.step w j).state i = w.state i := fun i hi =>
    sys.state_step_of_ne w hi.symm
  refine ⟨haccepted ▸ h.nodup, ?_, ?_, ?_⟩
  · rw [haccepted, ← h.server, sys.step_of_ready hk]
    exact hclean _ _ hrefusal
  · intro i hi
    rw [haccepted] at hi
    rw [hother i (ne_of_mem_of_not_mem hi hj)]
    exact h.done i hi
  · intro i r hr
    rw [haccepted]
    by_cases hij : i = j
    · subst hij
      rw [sys.state_step_self] at hr
      have hresult := (RetryLoop.phase_step _ hk).1 r hr
      exact .inr ⟨hj, (sys.call i).exists_error_of_refusal hrefusal hresult⟩
    · rw [hother i hij] at hr
      exact h.result i r hr

/-- Where it is another one, the call is done, and has its result from this answer. -/
theorem Served.accepted {w : World ι σ sys.call} (h : sys.Served w) {j : ι} {k : UInt32}
    (hpolicy : (sys.inner j).retry.OnlyTransient) (hk : (w.state j).phase = .ready k)
    (hrefusal : ¬ TransientRefusal sys.deps (sys.answer w.server j)) :
    sys.Served (sys.step w j) := by
  have haccepted := accepted_of_not_refusal hk hrefusal
  have hj : j ∉ sys.accepted w := fun hmem => h.done j hmem k hk
  have hother : ∀ i ≠ j, (sys.step w j).state i = w.state i := fun i hi =>
    sys.state_step_of_ne w hi.symm
  have hphase := RetryLoop.phase_step (sys.loop j fun _ => sys.answer w.server j) hk
  rw [← sys.state_step_self] at hphase
  refine ⟨?_, ?_, ?_, ?_⟩
  · rw [haccepted]
    refine List.nodup_append.2 ⟨h.nodup, List.nodup_singleton j, ?_⟩
    intro i hi i' hi'
    rw [List.mem_singleton.1 hi']
    exact ne_of_mem_of_not_mem hi hj
  · rw [haccepted, serveAll, List.foldl_append, ← serveAll, ← h.server, sys.step_of_ready hk]
    rfl
  · intro i hi k' hk'
    by_cases hij : i = j
    · subst hij
      obtain ⟨d, err, d', hattempt, hretry, -⟩ := hphase.2 k' hk'
      have htransient := (sys.call i).onlyTransient_policy hpolicy _ _ _ hretry
      exact hrefusal (((sys.call i).about_once hattempt).transientRefusal htransient)
    · rw [haccepted] at hi
      rw [hother i hij] at hk'
      exact h.done i ((List.mem_append.1 hi).resolve_right (by simpa using hij)) k' hk'
  · intro i r hr
    rw [haccepted]
    by_cases hij : i = j
    · subst hij
      refine .inl ⟨sys.accepted w, [], rfl, ?_⟩
      rw [← h.server]
      exact hphase.1 r hr
    · rw [hother i hij] at hr
      refine (h.result i r hr).imp (fun hserved => hserved.append j) ?_
      rintro ⟨hnot, herr⟩
      exact ⟨by simp [hnot, hij], herr⟩

theorem Served.step (hclean : sys.RefusesCleanly) {w : World ι σ sys.call} (h : sys.Served w)
    {j : ι} (hpolicy : (sys.inner j).retry.OnlyTransient) : sys.Served (sys.step w j) := by
  by_cases hready : ∃ k, (w.state j).phase = .ready k
  · obtain ⟨k, hk⟩ := hready
    by_cases hrefusal : TransientRefusal sys.deps (sys.answer w.server j)
    · exact h.refused hclean hk hrefusal
    · exact h.accepted hpolicy hk hrefusal
  · rwa [sys.step_of_halted (not_exists.1 hready)]

theorem accepted_isPrefix_run (schedule later : List ι) :
    sys.accepted (sys.run schedule) <+: sys.accepted (sys.run (schedule ++ later)) := by
  induction later using List.reverseRecOn with
  | nil => exact (List.append_nil schedule).symm ▸ List.prefix_rfl
  | append_singleton later j ih =>
      rw [← List.append_assoc, run_concat]
      exact ih.trans (accepted_isPrefix _ j)

/-- If a transient refusal leaves the server as it was, then after every run the server is where it
is after serving the accepted calls one after the other, each once. A call that has returned was
served so and got this result, or it failed and was never served. The order is final. -/
theorem served_once (hpolicy : ∀ i, (sys.inner i).retry.OnlyTransient) (hclean : sys.RefusesCleanly)
    (schedule : List ι) :
    let w := sys.run schedule
    (sys.accepted w).Nodup ∧ w.server = sys.serveAll (sys.accepted w) ∧
      (∀ later, sys.accepted w <+: sys.accepted (sys.run (schedule ++ later))) ∧
      ∀ i r, (w.state i).phase = .returned r →
        sys.ServedAs (sys.accepted w) i r ∨ i ∉ sys.accepted w ∧ ∃ err, r = .error err := by
  have hserved : sys.Served (sys.run schedule) := by
    induction schedule using List.reverseRecOn with
    | nil => exact served_init
    | append_singleton schedule j ih =>
        rw [run_concat]
        exact ih.step hclean (hpolicy j)
  exact ⟨hserved.nodup, hserved.server, accepted_isPrefix_run schedule, hserved.result⟩

def probed : System Bool ℕ Unit where
  inner _ := ⟨(), "u", ⟨bearer "k", true⟩, (TransientRetry.new 2).shouldRetry, none⟩
  call first := if first then .publish .sample else .health
  platform := samplePlatform
  deps := .sample
  serve s _ req :=
    if req.authorization.isSome ∧ s = 0 then (received 503 (fun _ => none) [] 0, s)
    else (received 200 (fun _ => none) [] 0, s + 1)
  start := 0

theorem served_once_probed : (∀ i, (probed.inner i).retry.OnlyTransient) ∧ probed.RefusesCleanly ∧
    let w := probed.run [true, false, true]
    (probed.accepted w).Nodup ∧ w.server = probed.serveAll (probed.accepted w) ∧
      (∀ later, probed.accepted w <+: probed.accepted (probed.run ([true, false, true] ++ later))) ∧
      ∀ i r, (w.state i).phase = .returned r →
        probed.ServedAs (probed.accepted w) i r ∨ i ∉ probed.accepted w ∧ ∃ err, r = .error err := by
  have hpolicy : ∀ i, (probed.inner i).retry.OnlyTransient := fun i => TransientRetry.onlyTransient 2
  have hclean : probed.RefusesCleanly := by
    intro s i hrefusal
    unfold answer probed at hrefusal
    unfold after probed
    dsimp only at hrefusal ⊢
    split_ifs at hrefusal ⊢ with hbusy
    · rfl
    · obtain ⟨resp, _, ⟨⟩, hrefused, -⟩ := hrefusal
      exact absurd rfl hrefused
  exact ⟨hpolicy, hclean, served_once hpolicy hclean [true, false, true]⟩

end System

end Semantik
