import Mathlib.Logic.Function.Basic
import Semantik.Lib.RetryLoop

/-!
# A retry loop that is answered step by step

The answer to an attempt may be decided when it is made, and not before. Where the counter grows, no
attempt is made twice, so a loop that is answered in this way runs as one whose answers were given
by the counter from the start. Where the policy gives up at some attempt and every attempt resolves,
the loop comes to an end.
-/

namespace RetryLoop

variable {κ ε β δ : Type*} (L : RetryLoop κ ε β δ)

/-- A step depends only on the attempt that it makes. -/
theorem step_congr {a a' : κ → Option (Except ε β)} {t : Trace κ ε β δ}
    (h : ∀ k, t.phase = .ready k → a k = a' k) :
    (L.withAttempt a).step t = (L.withAttempt a').step t := by
  by_cases hready : ∃ k, t.phase = .ready k
  · obtain ⟨k, hk⟩ := hready
    simp only [step, hk, withAttempt, h k hk]
    rfl
  · rw [(L.withAttempt a).step_halted (not_exists.1 hready),
      (L.withAttempt a').step_halted (not_exists.1 hready)]

theorem calls_step {t : Trace κ ε β δ} {k : κ} (hk : t.phase = .ready k) :
    (L.step t).calls = t.calls ++ [k] := by
  obtain hnone | ⟨d, hretried⟩ | ⟨r, hleaves⟩ := L.attempt_cases k
  · rw [L.step_waiting hk hnone]
  · rw [L.step_retried hk hretried]
  · rw [L.step_leaves hk hleaves]

/-- What a step makes of its attempt. -/
theorem phase_step {t : Trace κ ε β δ} {k : κ} (hk : t.phase = .ready k) :
    (∀ r, (L.step t).phase = .returned r → L.attempt k = some r) ∧
      ∀ k', (L.step t).phase = .ready k' → ∃ d, L.Retried k d := by
  obtain hnone | ⟨d, hretried⟩ | ⟨r, hleaves⟩ := L.attempt_cases k
  · rw [L.step_waiting hk hnone]
    exact ⟨by rintro _ ⟨⟩, by rintro _ ⟨⟩⟩
  · refine ⟨?_, fun _ _ => ⟨d, hretried⟩⟩
    rw [L.step_retried hk hretried]
    intro r hr
    unfold advance at hr
    split at hr <;> cases hr
  · rw [L.step_leaves hk hleaves]
    refine ⟨?_, by rintro _ ⟨⟩⟩
    rintro _ ⟨⟩
    exact hleaves.1

/-- A run depends only on the attempts that it has made. -/
theorem run_congr {a a' : κ → Option (Except ε β)} {n : ℕ}
    (h : ∀ k ∈ ((L.withAttempt a).run n).calls, a k = a' k) :
    (L.withAttempt a).run n = (L.withAttempt a').run n := by
  induction n with
  | zero => rfl
  | succ n ih =>
      rw [run_succ] at h ⊢
      have hbefore := ih fun k hk =>
        h k (List.IsPrefix.subset ((L.withAttempt a).step_isPrefix _).1 hk)
      rw [run_succ, ← hbefore]
      refine L.step_congr fun k hk => h k ?_
      rw [(L.withAttempt a).calls_step hk]
      exact List.mem_append_right _ List.mem_cons_self

def Grows (rank : κ → ℕ) : Prop := ∀ k k', L.next k = some k' → rank k < rank k'

/-- The next attempt is none of those that have been made. -/
theorem rank_lt_of_ready {rank : κ → ℕ} (hgrows : L.Grows rank) {n : ℕ} {k : κ}
    (hk : (L.run n).phase = .ready k) : ∀ k' ∈ (L.run n).calls, rank k' < rank k := by
  induction n generalizing k with
  | zero => simp [init]
  | succ n ih =>
      rw [run_succ] at hk ⊢
      by_cases hready : ∃ k₀, (L.run n).phase = .ready k₀
      swap
      · rw [L.step_halted (not_exists.1 hready)] at hk
        exact absurd ⟨k, hk⟩ hready
      obtain ⟨k₀, hk₀⟩ := hready
      obtain hnone | ⟨d, hretried⟩ | ⟨r, hleaves⟩ := L.attempt_cases k₀
      · rw [L.step_waiting hk₀ hnone] at hk
        cases hk
      · rw [L.step_retried hk₀ hretried] at hk ⊢
        have hnext : L.next k₀ = some k := by
          unfold advance at hk
          split at hk
          · next heq =>
            cases hk
            exact heq
          · cases hk
        have hlt := hgrows k₀ k hnext
        intro k' hk'
        obtain hk' | hk' := List.mem_append.1 hk'
        · exact Nat.lt_trans (ih hk₀ k' hk') hlt
        · rwa [List.mem_singleton.1 hk']
      · rw [L.step_leaves hk₀ hleaves] at hk
        cases hk

section Answered

variable {χ : Type*} [DecidableEq κ] (once : χ → Option (Except ε β))

def answered (answers : κ → χ) : RetryLoop κ ε β δ := L.withAttempt fun k => once (answers k)

theorem update_of_mem_calls {rank : κ → ℕ} (hgrows : L.Grows rank) (answers : κ → χ) {n : ℕ}
    {k : κ} (hk : (L.run n).phase = .ready k) (x : χ) :
    ∀ k' ∈ (L.run n).calls, Function.update answers k x k' = answers k' := by
  intro k' hk'
  apply Function.update_of_ne
  rintro rfl
  exact lt_irrefl _ (L.rank_lt_of_ready hgrows hk k' hk')

/-- To answer the next attempt now is to have given this answer for its number. -/
theorem step_answered {rank : κ → ℕ} (hgrows : L.Grows rank) (answers : κ → χ) {n : ℕ} {k : κ}
    (hk : ((L.answered once answers).run n).phase = .ready k) (x : χ) :
    (L.answered once fun _ => x).step ((L.answered once answers).run n) =
      (L.answered once (Function.update answers k x)).run (n + 1) := by
  have hgrows' : (L.answered once answers).Grows rank := hgrows
  have hother := (L.answered once answers).update_of_mem_calls hgrows' answers hk x
  have hrun : (L.answered once answers).run n =
      (L.answered once (Function.update answers k x)).run n :=
    L.run_congr fun k' hk' => congrArg once (hother k' hk').symm
  rw [run_succ, ← hrun]
  refine L.step_congr fun k' hk' => ?_
  rw [hk] at hk'
  cases hk'
  rw [Function.update_self]

end Answered

/-- In this measure the attempts are numbered consecutively, and the policy declines at `m` at the
latest. -/
structure GivesUpAt (rank : κ → ℕ) (m : ℕ) : Prop where
  start : rank L.start = 0
  next : ∀ k k', L.next k = some k' → rank k' = rank k + 1
  retry : ∀ k e d, rank k ≤ m → L.retry k e = some d → rank k < m ∧ L.next k ≠ none

/-- After so many rounds, the loop is at the attempt of that number, or it has returned. -/
inductive Nearing (rank : κ → ℕ) (m rounds : ℕ) (t : Trace κ ε β δ) : Prop where
  | ready (k : κ) (phase : t.phase = .ready k) (number : rank k = rounds) (le : rounds ≤ m)
      (length : t.calls.length = rounds)
  | returned (r : Except ε β) (phase : t.phase = .returned r) (length : t.calls.length ≤ m + 1)

/-- If the attempt resolves, its round comes nearer to the end. -/
theorem nearing_step {rank : κ → ℕ} {m rounds : ℕ} (h : L.GivesUpAt rank m)
    {t : Trace κ ε β δ} (ht : Nearing rank m rounds t)
    (hresolves : ∀ k, t.phase = .ready k → L.attempt k ≠ none) :
    Nearing rank m (rounds + 1) (L.step t) := by
  cases ht with
  | returned r hphase hlength =>
      rw [L.step_halted (by simp [hphase])]
      exact .returned r hphase hlength
  | ready k hphase hnumber hle hlength =>
      have hcalls : (t.calls ++ [k]).length = rounds + 1 := by
        rw [List.length_append, List.length_singleton, hlength]
      obtain hnone | ⟨d, hretried⟩ | ⟨r, hleaves⟩ := L.attempt_cases k
      · exact absurd hnone (hresolves k hphase)
      · rw [L.step_retried hphase hretried]
        obtain ⟨e, d', -, hretry, -⟩ := hretried
        obtain ⟨hlt, hnext⟩ := h.retry k e d' (hnumber ▸ hle) hretry
        obtain ⟨k', hk'⟩ := Option.ne_none_iff_exists'.1 hnext
        have hphase' : L.advance k = .ready k' := by simp only [advance, hk']
        exact .ready k' hphase' (by rw [h.next k k' hk', hnumber]) (by omega) hcalls
      · rw [L.step_leaves hphase hleaves]
        exact .returned r rfl (by rw [hcalls]; omega)

/-- There are not more rounds than attempts. -/
theorem Nearing.exists_returned {rank : κ → ℕ} {m rounds : ℕ} {t : Trace κ ε β δ}
    (h : Nearing rank m rounds t) (hm : m < rounds) : ∃ r, t.phase = .returned r := by
  cases h with
  | ready k hphase hnumber hle hlength => omega
  | returned r hphase hlength => exact ⟨r, hphase⟩

theorem Nearing.length_calls_le {rank : κ → ℕ} {m rounds : ℕ} {t : Trace κ ε β δ}
    (h : Nearing rank m rounds t) : t.calls.length ≤ m + 1 := by
  cases h with
  | ready k hphase hnumber hle hlength => omega
  | returned r hphase hlength => exact hlength

end RetryLoop
