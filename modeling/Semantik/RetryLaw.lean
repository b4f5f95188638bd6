import Mathlib.Order.Bounds.Basic
import Semantik.Transport

/-!
# The law of the retry loop

Under `TransientRetry` the attempts are numbered consecutively, the first one that succeeds, fails
for good or exhausts the budget is the last, and its outcome is returned. Under any policy the
sleeps are capped, and an error is returned only if the policy declined it.
-/

namespace Semantik

def Client.withBudget (n : UInt32) : Client := ⟨(TransientRetry.new n).shouldRetry⟩

def schedule : ℕ → Duration
  | 0 => .fromMillis 100
  | 1 => .fromSecs 2
  | 2 => .fromSecs 5
  | _ => .fromSecs 10

theorem fallbackBackoff_eq (attempt : UInt32) :
    fallbackBackoff attempt = schedule attempt.toNat := by
  have hget : ∀ (i : ℕ) (hi : min i (backoffSchedule.length - 1) < backoffSchedule.length),
      backoffSchedule.get ⟨min i (backoffSchedule.length - 1), hi⟩ = schedule i := by
    intro i hi
    rcases i with _ | _ | _ | i <;> simp [backoffSchedule, schedule, -Fin.reduceFinMk]
  exact hget attempt.toNat _

variable {α : Type}

/-- The loop stops at an attempt with this outcome. -/
def Stops (n : UInt32) (o : ℕ → Except Error α) (i : ℕ) : Prop :=
  (∃ v, o i = .ok v) ∨ (∃ err, o i = .error err ∧ ¬ err.IsTransient) ∨ i = n.toNat

def sleepAfter (o : ℕ → Except Error α) (i : ℕ) : Duration :=
  match o i with
  | .ok _ => 0
  | .error err => min (err.retryAfter.getD (schedule i)) (.fromSecs 3600)

theorem toNat_ofNat_of_le {n : UInt32} {i : ℕ} (h : i ≤ n.toNat) : (UInt32.ofNat i).toNat = i := by
  rw [UInt32.toNat_ofNat', Nat.mod_eq_of_lt (h.trans_lt n.toNat_lt)]

variable {n : UInt32} {o : ℕ → Except Error α}

/-- Before it stops, the loop retries with the documented sleep and the next number. -/
theorem retried_of_not_stops {i : ℕ} (hi : i < n.toNat) (h : ¬ Stops n o i) :
    (retryLoop (Client.withBudget n).retry (fun attempt => some (o attempt.toNat))).Retried
      (.ofNat i) (sleepAfter o i) := by
  have hnat := toNat_ofNat_of_le hi.le
  cases hoi : o i with
  | ok v => exact absurd (.inl ⟨v, hoi⟩) h
  | error err =>
      have htransient : err.IsTransient := by
        by_contra hnot
        exact h (.inr (.inl ⟨err, hoi, hnot⟩))
      have hlt : UInt32.ofNat i < n := by
        rw [UInt32.lt_iff_toNat_lt, hnat]
        exact hi
      refine ⟨err, err.retryAfter.getD (fallbackBackoff (.ofNat i)), ?_, ?_, ?_⟩
      · rw [← hoi]
        exact congrArg (fun i => some (o i)) hnat
      · exact (TransientRetry.shouldRetry_eq_some_iff _ _ _ _).2 ⟨hlt, htransient, rfl⟩
      · rw [sleepAfter, hoi, fallbackBackoff_eq, hnat]
        rfl

theorem leaves_of_stops {i : ℕ} (hi : i ≤ n.toNat) (h : Stops n o i) :
    (retryLoop (Client.withBudget n).retry (fun attempt => some (o attempt.toNat))).Leaves
      (.ofNat i) (o i) := by
  have hnat := toNat_ofNat_of_le hi
  refine ⟨congrArg (fun i => some (o i)) hnat, ?_⟩
  intro err herr
  have hnot : ¬ ((TransientRetry.new n).shouldRetry (.ofNat i) err).isSome := by
    rw [TransientRetry.isSome_shouldRetry, UInt32.lt_iff_toNat_lt, hnat]
    intro hretried
    obtain ⟨hlt, htransient⟩ := hretried
    obtain ⟨v, hv⟩ | ⟨err', herr', hnot⟩ | rfl := h
    · rw [herr] at hv
      cases hv
    · rw [herr] at herr'
      cases herr'
      exact hnot htransient
    · exact lt_irrefl _ hlt
  exact Option.not_isSome_iff_eq_none.1 hnot

theorem next_ofNat {i : ℕ} (hi : i < n.toNat) {f : UInt32 → Future (Except Error α)} :
    (retryLoop (Client.withBudget n).retry f).next (.ofNat i) = some (.ofNat (i + 1)) := by
  have hlt := n.toNat_lt
  have hnat := toNat_ofNat_of_le hi.le
  rw [retryLoop_next_ofNat, if_pos (by omega)]

/-- The trace of the loop, given the least attempt at which it stops. -/
theorem run_of_isLeast {k : ℕ} (hk : IsLeast {i | Stops n o i} k) :
    (∀ rounds ≤ k, runWithRetry (Client.withBudget n) (fun attempt => some (o attempt.toNat)) rounds =
      ⟨(List.range rounds).map UInt32.ofNat, (List.range rounds).map (sleepAfter o),
        .ready (.ofNat rounds)⟩) ∧
    ∀ rounds, k < rounds →
      runWithRetry (Client.withBudget n) (fun attempt => some (o attempt.toNat)) rounds =
        ⟨(List.range (k + 1)).map UInt32.ofNat, (List.range k).map (sleepAfter o),
          .returned (o k)⟩ := by
  have hkn : k ≤ n.toNat := hk.2 (.inr (.inr rfl))
  have hbefore : ∀ i < k, ¬ Stops n o i := fun i hi hstops => absurd (hk.2 hstops) (not_le.2 hi)
  constructor
  · intro rounds hrounds
    apply RetryLoop.run_of_retried _ rfl
    · intro i hi
      exact retried_of_not_stops (by omega) (hbefore i (by omega))
    · intro i hi
      exact next_ofNat (by omega)
  · intro rounds hrounds
    refine RetryLoop.run_of_leaves _ rfl ?_ ?_ (leaves_of_stops hkn hk.1) hrounds
    · intro i hi
      exact retried_of_not_stops (by omega) (hbefore i hi)
    · intro i hi
      exact next_ofNat (by omega)

theorem exists_isLeast_stops (n : UInt32) (o : ℕ → Except Error α) :
    ∃ k, IsLeast {i | Stops n o i} k := by
  classical
  have hex : ∃ i, Stops n o i := ⟨n.toNat, .inr (.inr rfl)⟩
  exact ⟨Nat.find hex, Nat.find_spec hex, fun i hi => Nat.find_min' hex hi⟩

/-- The attempts up to the budget have the numbers they are counted by. -/
theorem map_toNat_attempts {k : ℕ} (h : k ≤ n.toNat) :
    ((List.range (k + 1)).map UInt32.ofNat).map UInt32.toNat = List.range (k + 1) := by
  rw [List.map_map]
  refine (List.map_congr_left ?_).trans (List.map_id _)
  intro i hi
  rw [List.mem_range] at hi
  exact toNat_ofNat_of_le ((Nat.le_of_lt_succ hi).trans h)

/-- Under `TransientRetry` the loop makes the attempts `0, .., k`, where `k` is the first one that
succeeds, fails for good or exhausts the budget, sleeps after each but the last, and returns the
outcome of the last. Under any policy sleeps are capped and errors are declined. -/
theorem retry_law :
    (∀ (n : UInt32) (o : ℕ → Except Error α), ∃ k, IsLeast {i | Stops n o i} k ∧ ∀ rounds,
      let call := runWithRetry (Client.withBudget n) (fun attempt => some (o attempt.toNat)) rounds
      call.phase ≠ .overflowed ∧ (k < rounds →
        call.calls.map UInt32.toNat = List.range (k + 1) ∧
        call.sleeps = (List.range k).map (sleepAfter o) ∧ call.phase = .returned (o k))) ∧
    ∀ (client : Client) (f : UInt32 → Future (Except Error α)) (rounds : ℕ),
      let call := runWithRetry client f rounds
      (∀ d ∈ call.sleeps, d ≤ .fromSecs 3600) ∧
      ∀ err, call.phase = .returned (.error err) → ∃ k, call.calls.getLast? = some k ∧
        f k = some (.error err) ∧ client.retry k err = none := by
  refine ⟨?_, ?_⟩
  · intro n o
    obtain ⟨k, hk⟩ := exists_isLeast_stops n o
    obtain ⟨hready, hreturned⟩ := run_of_isLeast hk
    refine ⟨k, hk, ?_⟩
    intro rounds
    by_cases hrounds : k < rounds
    · dsimp only
      rw [hreturned rounds hrounds]
      refine ⟨by simp, fun _ => ⟨?_, rfl, rfl⟩⟩
      exact map_toNat_attempts (hk.2 (.inr (.inr rfl)))
    · dsimp only
      rw [hready rounds (not_lt.1 hrounds)]
      exact ⟨by simp, fun h => absurd h hrounds⟩
  · intro client f rounds
    refine ⟨?_, ?_⟩
    · intro d hd
      obtain ⟨k, e, d', -, -, rfl⟩ := RetryLoop.retried_of_mem_sleeps _ hd
      exact min_le_right _ _
    · intro err herr
      obtain ⟨front, k, hcalls, hattempt, hretry⟩ := RetryLoop.leaves_of_returned _ herr
      refine ⟨k, ?_, hattempt, hretry err rfl⟩
      rw [runWithRetry, hcalls]
      simp

end Semantik
