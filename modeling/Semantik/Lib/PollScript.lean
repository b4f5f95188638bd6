import Mathlib.Data.List.Basic

/-!
# Polled streams and their scripts

A stream is polled: each poll is pending, or yields an item, or says that there is none. A script
says what a stream still has to yield and how it goes on after that. A stream whose every poll is a
step of its script yields exactly the items of the script, in order.
-/

inductive Poll (α : Type*) where
  | ready (value : α)
  | pending
deriving DecidableEq, Repr

namespace PollScript

/-- How a stream goes on after its items: nothing more happens, it will end, it will end with one
more item that reports a failure, or it has ended. -/
inductive Ending (α : Type*) where
  | idle
  | closing
  | failing (x : α)
  | ended

/-- The items to come, the ending, and a bound on the pending polls before the end. -/
structure Script (α : Type*) where
  items : List α
  ending : Ending α
  pendings : ℕ

variable {α σ : Type*}

inductive Next : Script α → Poll (Option α) → Script α → Prop where
  | item (x : α) (items : List α) (ending : Ending α) {p p' : ℕ} (h : p' ≤ p) :
      Next ⟨x :: items, ending, p⟩ (.ready (some x)) ⟨items, ending, p'⟩
  | itemClosing (x : α) (items : List α) {p p' : ℕ} (h : p' ≤ p) :
      Next ⟨x :: items, .closing, p⟩ (.ready (some x)) ⟨items, .ended, p'⟩
  | fail (x : α) {p p' : ℕ} (h : p' ≤ p) :
      Next ⟨[], .failing x, p⟩ (.ready (some x)) ⟨[], .ended, p'⟩
  | close {p p' : ℕ} (h : p' ≤ p) : Next ⟨[], .closing, p⟩ (.ready none) ⟨[], .ended, p'⟩
  | ended (p : ℕ) : Next ⟨[], .ended, p⟩ (.ready none) ⟨[], .ended, p⟩
  | wait (items : List α) {ending : Ending α} {p p' : ℕ} (h : p' < p) (hne : ending ≠ .ended) :
      Next ⟨items, ending, p⟩ .pending ⟨items, ending, p'⟩
  | idle (p : ℕ) : Next ⟨[], .idle, p⟩ .pending ⟨[], .idle, p⟩

/-- A stream that has ended, seen as one that will end. -/
theorem Next.of_ended {items : List α} {p : ℕ} {r : Poll (Option α)} {after : Script α}
    (h : Next ⟨items, .ended, p⟩ r after) : Next ⟨items, .closing, p⟩ r after := by
  cases h with
  | item x items ending h => exact .itemClosing x items h
  | ended p => exact .close (Nat.le_refl p)
  | wait items h hne => exact absurd rfl hne

def Ending.failure : Ending α → List α
  | failing x => [x]
  | _ => []

/-- The answers of `n` polls or more, pending polls left out. -/
def Script.answers (script : Script α) (n : ℕ) : List (Option α) :=
  (script.items ++ script.ending.failure).map some ++
    match script.ending with
    | .idle => []
    | _ => List.replicate n none

def results (poll : σ → Poll (Option α) × σ) : ℕ → σ → List (Poll (Option α))
  | 0, _ => []
  | n + 1, s => (poll s).1 :: results poll n (poll s).2

def readies : List (Poll α) → List α
  | [] => []
  | .ready x :: polls => x :: readies polls
  | .pending :: polls => readies polls

/-- The stream yields what the script says, and nothing else. -/
structure Plays (poll : σ → Poll (Option α) × σ) (s : σ) (script : Script α) : Prop where
  /-- The answers are those of the script, in order. -/
  isPrefix : ∀ n, readies (results poll n s) <+: script.answers n
  /-- Polls are pending only so often, unless all items were yielded and nothing more happens. -/
  progress : ∀ n, n ≤ (readies (results poll n s)).length + script.pendings ∨
    script.ending = .idle ∧ (readies (results poll n s)).length = script.items.length
  /-- After a failure, or once the stream said that it has ended, every poll says so. -/
  ended : ∀ n before r after, results poll n s = before ++ r :: after →
    .ready none ∈ before ∨ (∃ x, script.ending = .failing x) ∧
      script.items.length < (readies before).length → r = .ready none

theorem Plays.of_le {poll : σ → Poll (Option α) × σ} {s : σ} {items : List α} {ending : Ending α}
    {p p' : ℕ} (h : Plays poll s ⟨items, ending, p⟩) (hp : p ≤ p') :
    Plays poll s ⟨items, ending, p'⟩ where
  isPrefix := h.isPrefix
  progress n := (h.progress n).imp_left fun hle => Nat.le_trans hle (Nat.add_le_add_left hp _)
  ended := h.ended

theorem answers_mono (script : Script α) (n : ℕ) : script.answers n <+: script.answers (n + 1) := by
  obtain ⟨items, ending, p⟩ := script
  cases ending with
  | idle => exact List.prefix_rfl
  | _ => exact (List.prefix_append_right_inj _).2 ⟨[none], List.replicate_succ'.symm⟩

section Simulation

variable {poll : σ → Poll (Option α) × σ} {script : σ → Script α}
  (hsim : ∀ s, Next (script s) (poll s).1 (script (poll s).2))

include hsim

theorem readies_isPrefix (n : ℕ) (s : σ) :
    readies (results poll n s) <+: (script s).answers n := by
  induction n generalizing s with
  | zero => exact List.nil_prefix
  | succ n ih =>
      have hnext := hsim s
      have htail := ih (poll s).2
      rw [results]
      generalize (poll s).1 = r at hnext ⊢
      generalize script (poll s).2 = after at hnext htail
      generalize script s = before at hnext ⊢
      cases hnext with
      | item x items ending h =>
          exact (List.prefix_cons_inj _).2 (htail.trans (answers_mono ⟨items, ending, _⟩ n))
      | itemClosing x items h =>
          exact (List.prefix_cons_inj _).2 (htail.trans (answers_mono ⟨items, .ended, _⟩ n))
      | fail x h => exact (List.prefix_cons_inj _).2 (htail.trans (answers_mono ⟨[], .ended, _⟩ n))
      | close h => exact (List.prefix_cons_inj _).2 htail
      | ended p => exact (List.prefix_cons_inj _).2 htail
      | wait items h hne => exact htail.trans (answers_mono ⟨items, _, _⟩ n)
      | idle p => exact htail.trans (answers_mono ⟨[], .idle, p⟩ n)

theorem le_length_readies (n : ℕ) (s : σ) :
    n ≤ (readies (results poll n s)).length + (script s).pendings ∨
      (script s).ending = .idle ∧
        (readies (results poll n s)).length = (script s).items.length := by
  induction n generalizing s with
  | zero => exact .inl (Nat.zero_le _)
  | succ n ih =>
      have hnext := hsim s
      have htail := ih (poll s).2
      have hprefix := readies_isPrefix hsim n (poll s).2
      rw [results]
      generalize (poll s).1 = r at hnext ⊢
      generalize script (poll s).2 = after at hnext htail hprefix
      generalize script s = before at hnext ⊢
      cases hnext with
      | item x items ending h =>
          obtain hle | ⟨hidle, hlen⟩ := htail
          · apply Or.inl
            simp only [readies, List.length_cons] at hle ⊢
            omega
          · exact .inr ⟨hidle, congrArg (· + 1) hlen⟩
      | wait items h hne =>
          obtain hle | htail := htail
          · apply Or.inl
            simp only [readies] at hle ⊢
            omega
          · exact .inr htail
      | idle p =>
          exact .inr ⟨rfl, congrArg List.length (List.prefix_nil.1 hprefix)⟩
      | _ =>
          obtain hle | ⟨hidle, -⟩ := htail
          · apply Or.inl
            simp only [readies, List.length_cons] at hle ⊢
            omega
          · cases hidle

/-- A stream that has ended stays so. -/
theorem results_ended (n : ℕ) (s : σ) (hitems : (script s).items = [])
    (hended : (script s).ending = .ended) : ∀ r ∈ results poll n s, r = .ready none := by
  induction n generalizing s with
  | zero => simp [results]
  | succ n ih =>
      have hnext := hsim s
      have htail := ih (poll s).2
      rw [results, List.forall_mem_cons]
      generalize (poll s).1 = r at hnext ⊢
      generalize script (poll s).2 = after at hnext htail
      generalize script s = before at hnext hitems hended
      cases hnext with
      | ended p => exact ⟨rfl, htail rfl rfl⟩
      | wait items h hne => exact absurd hended hne
      | item => cases hitems
      | _ => cases hended

theorem ready_none_of_ended {n : ℕ} {s : σ} {before after : List (Poll (Option α))}
    {r : Poll (Option α)} (hresults : results poll n s = before ++ r :: after)
    (h : .ready none ∈ before ∨ (∃ x, (script s).ending = .failing x) ∧
      (script s).items.length < (readies before).length) : r = .ready none := by
  induction n generalizing s before with
  | zero => simp [results] at hresults
  | succ n ih =>
      cases before with
      | nil => simp [readies] at h
      | cons r₀ before =>
          have hnext := hsim s
          have hended := results_ended hsim n (poll s).2
          obtain ⟨rfl, htail⟩ := List.cons_eq_cons.1 hresults
          have ih := ih htail
          rw [htail] at hended
          have hmem : r ∈ before ++ r :: after := by simp
          generalize (poll s).1 = r₀ at hnext h
          generalize script (poll s).2 = later at hnext ih hended
          generalize script s = now at hnext h
          cases hnext with
          | item x items ending hp =>
              refine ih (h.imp ?_ ?_)
              · simp
              · exact And.imp_right fun hlt => Nat.lt_of_succ_lt_succ hlt
          | itemClosing x items hp =>
              refine ih (.inl ?_)
              simpa using h
          | fail x hp => exact hended rfl rfl r hmem
          | close hp => exact hended rfl rfl r hmem
          | ended p => exact hended rfl rfl r hmem
          | wait items hp hne =>
              refine ih (h.imp ?_ ?_)
              · simp
              · exact id
          | idle p =>
              refine ih (.inl ?_)
              simpa using h

theorem plays (s : σ) : Plays poll s (script s) where
  isPrefix n := readies_isPrefix hsim n s
  progress n := le_length_readies hsim n s
  ended _ _ _ _ hresults h := ready_none_of_ended hsim hresults h

end Simulation

end PollScript
