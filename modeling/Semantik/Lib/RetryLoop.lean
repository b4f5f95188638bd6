import Mathlib.Data.List.Forall2
import Mathlib.Data.Nat.Find
import Mathlib.Logic.Function.Iterate

/-!
# Retry loops

A loop calls an attempt with a counter. A success is returned; an error is shown to a policy, which
declines, and then the error is returned, or names a delay: the loop sleeps and tries again with
the next counter. An attempt may never resolve, and the counter may have no successor.
-/

/-- The pieces of a retry loop. `cap` is applied to each delay before the sleep. -/
structure RetryLoop (κ ε β δ : Type*) where
  start : κ
  next : κ → Option κ
  attempt : κ → Option (Except ε β)
  retry : κ → ε → Option δ
  cap : δ → δ

namespace RetryLoop

variable {κ ε β δ : Type*}

inductive Phase (κ ε β : Type*) where
  | ready (k : κ)
  | waiting
  | returned (r : Except ε β)
  | overflowed

structure Trace (κ ε β δ : Type*) where
  calls : List κ
  sleeps : List δ
  phase : Phase κ ε β

variable (L : RetryLoop κ ε β δ)

def init : Trace κ ε β δ := ⟨[], [], .ready L.start⟩

def advance (k : κ) : Phase κ ε β :=
  match L.next k with
  | some k' => .ready k'
  | none => .overflowed

def step (t : Trace κ ε β δ) : Trace κ ε β δ :=
  match t.phase with
  | .ready k =>
    match L.attempt k with
    | none => ⟨t.calls ++ [k], t.sleeps, .waiting⟩
    | some (.ok v) => ⟨t.calls ++ [k], t.sleeps, .returned (.ok v)⟩
    | some (.error e) =>
      match L.retry k e with
      | none => ⟨t.calls ++ [k], t.sleeps, .returned (.error e)⟩
      | some d => ⟨t.calls ++ [k], t.sleeps ++ [L.cap d], L.advance k⟩
  | _ => t

def run (rounds : ℕ) : Trace κ ε β δ := L.step^[rounds] L.init

/-- The attempt failed with an error that the policy retries, and the loop slept `d`. -/
def Retried (k : κ) (d : δ) : Prop :=
  ∃ e d', L.attempt k = some (.error e) ∧ L.retry k e = some d' ∧ d = L.cap d'

/-- The loop leaves with this result: a success, or an error that the policy declines. -/
def Leaves (k : κ) (r : Except ε β) : Prop :=
  L.attempt k = some r ∧ ∀ e, r = .error e → L.retry k e = none

theorem step_halted {t : Trace κ ε β δ} (h : ∀ k, t.phase ≠ .ready k) : L.step t = t := by
  unfold step
  split
  · next k hk => exact absurd hk (h k)
  · rfl

theorem step_waiting {t : Trace κ ε β δ} {k : κ} (ht : t.phase = .ready k)
    (hk : L.attempt k = none) : L.step t = ⟨t.calls ++ [k], t.sleeps, .waiting⟩ := by
  simp only [step, ht, hk]

theorem step_retried {t : Trace κ ε β δ} {k : κ} {d : δ} (ht : t.phase = .ready k)
    (hk : L.Retried k d) : L.step t = ⟨t.calls ++ [k], t.sleeps ++ [d], L.advance k⟩ := by
  obtain ⟨e, d', hattempt, hretry, rfl⟩ := hk
  simp only [step, ht, hattempt, hretry]

theorem step_leaves {t : Trace κ ε β δ} {k : κ} {r : Except ε β} (ht : t.phase = .ready k)
    (hk : L.Leaves k r) : L.step t = ⟨t.calls ++ [k], t.sleeps, .returned r⟩ := by
  obtain ⟨hattempt, hretry⟩ := hk
  cases r with
  | ok v => simp only [step, ht, hattempt]
  | error e => simp only [step, ht, hattempt, hretry e rfl]

/-- What an attempt can come to. -/
theorem attempt_cases (k : κ) :
    L.attempt k = none ∨ (∃ d, L.Retried k d) ∨ ∃ r, L.Leaves k r := by
  cases hk : L.attempt k with
  | none => exact .inl rfl
  | some r =>
      cases r with
      | ok v => exact .inr (.inr ⟨.ok v, hk, by rintro _ ⟨⟩⟩)
      | error e =>
          cases hr : L.retry k e with
          | none =>
              refine .inr (.inr ⟨.error e, hk, ?_⟩)
              rintro _ ⟨⟩
              exact hr
          | some d => exact .inr (.inl ⟨_, e, d, hk, hr, rfl⟩)

@[simp] theorem run_zero : L.run 0 = L.init := rfl

theorem run_succ (n : ℕ) : L.run (n + 1) = L.step (L.run n) :=
  Function.iterate_succ_apply' L.step n L.init

/-- A loop that is done stays as it is. -/
theorem run_halted {m : ℕ} (h : ∀ k, (L.run m).phase ≠ .ready k) (j : ℕ) :
    L.run (m + j) = L.run m := by
  induction j with
  | zero => rfl
  | succ j ih =>
      rw [← Nat.add_assoc, L.run_succ, ih]
      exact L.step_halted h

/-- Every call but perhaps the last one was retried after a sleep; the last one ended the loop. -/
inductive Sound : Trace κ ε β δ → Prop where
  | ready {calls : List κ} {sleeps : List δ} (k : κ) (h : List.Forall₂ L.Retried calls sleeps) :
      Sound ⟨calls, sleeps, .ready k⟩
  | overflowed {calls : List κ} {sleeps : List δ} (h : List.Forall₂ L.Retried calls sleeps) :
      Sound ⟨calls, sleeps, .overflowed⟩
  | waiting {front : List κ} {sleeps : List δ} {k : κ} (h : List.Forall₂ L.Retried front sleeps)
      (hk : L.attempt k = none) : Sound ⟨front ++ [k], sleeps, .waiting⟩
  | returned {front : List κ} {sleeps : List δ} {k : κ} {r : Except ε β}
      (h : List.Forall₂ L.Retried front sleeps) (hk : L.Leaves k r) :
      Sound ⟨front ++ [k], sleeps, .returned r⟩

theorem sound_advance {calls : List κ} {sleeps : List δ} (k : κ)
    (h : List.Forall₂ L.Retried calls sleeps) : L.Sound ⟨calls, sleeps, L.advance k⟩ := by
  unfold advance
  cases L.next k with
  | none => exact .overflowed h
  | some k' => exact .ready k' h

theorem sound_step {t : Trace κ ε β δ} (h : L.Sound t) : L.Sound (L.step t) := by
  cases h with
  | ready k h =>
      obtain hk | ⟨d, hk⟩ | ⟨r, hk⟩ := L.attempt_cases k
      · rw [L.step_waiting rfl hk]
        exact .waiting h hk
      · rw [L.step_retried rfl hk]
        exact L.sound_advance k (List.rel_append h (.cons hk .nil))
      · rw [L.step_leaves rfl hk]
        exact .returned h hk
  | overflowed h => exact .overflowed h
  | waiting h hk => exact .waiting h hk
  | returned h hk => exact .returned h hk

theorem sound_run (rounds : ℕ) : L.Sound (L.run rounds) := by
  induction rounds with
  | zero => exact .ready L.start .nil
  | succ n ih =>
      rw [run_succ]
      exact L.sound_step ih

theorem exists_retried {calls : List κ} {sleeps : List δ} (h : List.Forall₂ L.Retried calls sleeps)
    {k : κ} (hk : k ∈ calls) : ∃ d, L.Retried k d := by
  induction h with
  | nil => cases hk
  | cons hd _ ih =>
      cases hk with
      | head => exact ⟨_, hd⟩
      | tail _ hk => exact ih hk

theorem exists_slept {calls : List κ} {sleeps : List δ} (h : List.Forall₂ L.Retried calls sleeps)
    {d : δ} (hd : d ∈ sleeps) : ∃ k, L.Retried k d := by
  induction h with
  | nil => cases hd
  | cons hk _ ih =>
      cases hd with
      | head => exact ⟨_, hk⟩
      | tail _ hd => exact ih hd

/-- A call whose attempt is not retried is the last one, and its outcome is that of the loop. -/
theorem last_of_not_retried {rounds : ℕ} {k : κ} (hk : k ∈ (L.run rounds).calls)
    (h : ∀ d, ¬ L.Retried k d) : ∃ front, (L.run rounds).calls = front ++ [k] ∧ k ∉ front ∧
      (L.run rounds).phase = (L.attempt k).elim .waiting .returned := by
  have hnot : ∀ {front sleeps}, List.Forall₂ L.Retried front sleeps → k ∉ front := by
    intro front sleeps hall hmem
    obtain ⟨d, hd⟩ := L.exists_retried hall hmem
    exact h d hd
  have hlast : ∀ {front sleeps k'}, List.Forall₂ L.Retried front sleeps → k ∈ front ++ [k'] →
      k = k' := by
    intro front sleeps k' hall hmem
    obtain hmem | hmem := List.mem_append.1 hmem
    · exact absurd hmem (hnot hall)
    · exact List.mem_singleton.1 hmem
  have hsound := L.sound_run rounds
  generalize L.run rounds = t at hk hsound
  cases hsound with
  | ready k' hall => exact absurd hk (hnot hall)
  | overflowed hall => exact absurd hk (hnot hall)
  | waiting hall hk' =>
      obtain rfl := hlast hall hk
      exact ⟨_, rfl, hnot hall, by rw [hk']; rfl⟩
  | returned hall hk' =>
      obtain rfl := hlast hall hk
      exact ⟨_, rfl, hnot hall, by rw [hk'.1]; rfl⟩

/-- A result of the loop is that of its last attempt, at which it left. -/
theorem leaves_of_returned {rounds : ℕ} {r : Except ε β}
    (h : (L.run rounds).phase = .returned r) :
    ∃ front k, (L.run rounds).calls = front ++ [k] ∧ L.Leaves k r := by
  have hsound := L.sound_run rounds
  generalize L.run rounds = t at h hsound
  cases hsound with
  | returned hall hk =>
      cases h
      exact ⟨_, _, rfl, hk⟩
  | _ => cases h

/-- Every sleep was named by the policy for some attempt, and capped. -/
theorem retried_of_mem_sleeps {rounds : ℕ} {d : δ} (h : d ∈ (L.run rounds).sleeps) :
    ∃ k, L.Retried k d := by
  have hsound := L.sound_run rounds
  generalize L.run rounds = t at h hsound
  cases hsound with
  | ready _ hall => exact L.exists_slept hall h
  | overflowed hall => exact L.exists_slept hall h
  | waiting hall _ => exact L.exists_slept hall h
  | returned hall _ => exact L.exists_slept hall h

/-- While the attempts at `c 0, c 1, ..` are retried, the loop calls each once and sleeps between
them. -/
theorem run_of_retried {c : ℕ → κ} {d : ℕ → δ} {m : ℕ} (hstart : c 0 = L.start)
    (hretried : ∀ i < m, L.Retried (c i) (d i)) (hnext : ∀ i < m, L.next (c i) = some (c (i + 1))) :
    L.run m = ⟨(List.range m).map c, (List.range m).map d, .ready (c m)⟩ := by
  induction m with
  | zero =>
      rw [hstart]
      rfl
  | succ m ih =>
      have hm := ih (fun i hi => hretried i (by omega)) (fun i hi => hnext i (by omega))
      rw [run_succ, hm, L.step_retried rfl (hretried m (by omega)), advance, hnext m (by omega)]
      simp [List.range_succ]

/-- At the first attempt at which it leaves, the loop returns that attempt's result, for good. -/
theorem run_of_leaves {c : ℕ → κ} {d : ℕ → δ} {m : ℕ} {r : Except ε β} (hstart : c 0 = L.start)
    (hretried : ∀ i < m, L.Retried (c i) (d i)) (hnext : ∀ i < m, L.next (c i) = some (c (i + 1)))
    (hleaves : L.Leaves (c m) r) {rounds : ℕ} (h : m < rounds) :
    L.run rounds = ⟨(List.range (m + 1)).map c, (List.range m).map d, .returned r⟩ := by
  have hm : L.run (m + 1) = ⟨(List.range (m + 1)).map c, (List.range m).map d, .returned r⟩ := by
    rw [run_succ, L.run_of_retried hstart hretried hnext, L.step_leaves rfl hleaves]
    simp [List.range_succ]
  obtain ⟨j, rfl⟩ := Nat.exists_eq_add_of_le h
  rw [L.run_halted (by simp [hm]), hm]

def Continues (c : ℕ → κ) (i : ℕ) : Prop :=
  (∃ d, L.Retried (c i) d) ∧ L.next (c i) = some (c (i + 1))

/-- The rounds that continue call one counter after the other. -/
theorem run_of_continues [Nonempty δ] {c : ℕ → κ} {m : ℕ} (hstart : c 0 = L.start)
    (h : ∀ i < m, L.Continues c i) :
    ∃ sleeps, L.run m = ⟨(List.range m).map c, sleeps, .ready (c m)⟩ := by
  choose! d hd using fun i hi => (h i hi).1
  exact ⟨_, L.run_of_retried hstart hd (fun i hi => (h i hi).2)⟩

/-- At the first round that does not continue, the loop returns if it leaves there, for good. -/
theorem run_of_leaves_at [Nonempty δ] {c : ℕ → κ} {m : ℕ} {r : Except ε β} (hstart : c 0 = L.start)
    (h : ∀ i < m, L.Continues c i) (hleaves : L.Leaves (c m) r) {rounds : ℕ} (hm : m < rounds) :
    (L.run rounds).phase = .returned r ∧ (L.run rounds).calls = (List.range (m + 1)).map c := by
  choose! d hd using fun i hi => (h i hi).1
  rw [L.run_of_leaves hstart hd (fun i hi => (h i hi).2) hleaves hm]
  exact ⟨rfl, rfl⟩

/-- A loop that has returned left at the first round that does not continue. -/
theorem exists_of_returned [Nonempty δ] {c : ℕ → κ} (hstart : c 0 = L.start)
    (hnext : ∀ i, L.next (c i) = some (c (i + 1)) ∨ L.next (c i) = none) {rounds : ℕ}
    {r : Except ε β} (h : (L.run rounds).phase = .returned r) :
    ∃ m < rounds, (∀ i < m, L.Continues c i) ∧ L.Leaves (c m) r := by
  classical
  by_cases hall : ∀ i < rounds, L.Continues c i
  · obtain ⟨sleeps, hrun⟩ := L.run_of_continues hstart hall
    rw [hrun] at h
    cases h
  push Not at hall
  obtain ⟨hm, hstop⟩ := Nat.find_spec hall
  have hbefore : ∀ i < Nat.find hall, L.Continues c i := by
    intro i hi
    by_contra hnot
    exact Nat.find_min hall hi ⟨Nat.lt_trans hi hm, hnot⟩
  refine ⟨Nat.find hall, hm, hbefore, ?_⟩
  generalize Nat.find hall = m at hm hstop hbefore
  obtain ⟨sleeps, hrun⟩ := L.run_of_continues hstart hbefore
  have hphase : (L.run m).phase = .ready (c m) := by rw [hrun]
  have hsucc := L.run_succ m
  obtain ⟨j, rfl⟩ := Nat.exists_eq_add_of_lt hm
  rw [Nat.add_right_comm] at h
  obtain hk | ⟨d, hk⟩ | ⟨r', hk⟩ := L.attempt_cases (c m)
  · rw [L.step_waiting hphase hk] at hsucc
    rw [L.run_halted (by simp [hsucc]), hsucc] at h
    cases h
  · have hlast := (hnext m).resolve_left (fun hgo => hstop ⟨⟨d, hk⟩, hgo⟩)
    rw [L.step_retried hphase hk, advance, hlast] at hsucc
    rw [L.run_halted (by simp [hsucc]), hsucc] at h
    cases h
  · rw [L.step_leaves hphase hk] at hsucc
    rw [L.run_halted (by simp [hsucc]), hsucc] at h
    cases h
    exact hk

structure Numbered (c : ℕ → κ) (t : Trace κ ε β δ) : Prop where
  calls : t.calls = (List.range t.calls.length).map c
  ready : ∀ k, t.phase = .ready k → k = c t.calls.length

theorem Numbered.append {c : ℕ → κ} {t : Trace κ ε β δ} (h : Numbered c t) {k : κ}
    (hk : t.phase = .ready k) :
    t.calls ++ [k] = (List.range (t.calls ++ [k]).length).map c := by
  rw [List.length_append, List.length_singleton, List.range_succ, List.map_append, ← h.calls,
    h.ready k hk]
  rfl

theorem numbered_step {c : ℕ → κ} (hnext : ∀ i, L.next (c i) = some (c (i + 1)) ∨ L.next (c i) = none)
    {t : Trace κ ε β δ} (h : Numbered c t) : Numbered c (L.step t) := by
  by_cases hready : ∃ k, t.phase = .ready k
  swap
  · rw [L.step_halted (not_exists.1 hready)]
    exact h
  obtain ⟨k, hphase⟩ := hready
  have hcalls := h.append hphase
  obtain hk | ⟨d, hk⟩ | ⟨r, hk⟩ := L.attempt_cases k
  · rw [L.step_waiting hphase hk]
    exact ⟨hcalls, by rintro _ ⟨⟩⟩
  · rw [L.step_retried hphase hk]
    refine ⟨hcalls, ?_⟩
    intro k' hk'
    rw [List.length_append, List.length_singleton]
    obtain rfl := h.ready k hphase
    unfold advance at hk'
    obtain hgo | hlast := hnext t.calls.length
    · rw [hgo] at hk'
      cases hk'
      rfl
    · rw [hlast] at hk'
      cases hk'
  · rw [L.step_leaves hphase hk]
    exact ⟨hcalls, by rintro _ ⟨⟩⟩

theorem numbered_run {c : ℕ → κ} (hstart : c 0 = L.start)
    (hnext : ∀ i, L.next (c i) = some (c (i + 1)) ∨ L.next (c i) = none) (rounds : ℕ) :
    Numbered c (L.run rounds) := by
  induction rounds with
  | zero =>
      refine ⟨rfl, ?_⟩
      rintro _ ⟨⟩
      exact hstart.symm
  | succ n ih =>
      rw [run_succ]
      exact L.numbered_step hnext ih

/-- The sleeps were those of the first calls, of which at most the last one was not retried. -/
theorem exists_front (rounds : ℕ) : ∃ front, List.Forall₂ L.Retried front (L.run rounds).sleeps ∧
    ((L.run rounds).calls = front ∨ ∃ k, (L.run rounds).calls = front ++ [k]) := by
  have hsound := L.sound_run rounds
  generalize L.run rounds = t at hsound
  cases hsound with
  | ready k h => exact ⟨_, h, .inl rfl⟩
  | overflowed h => exact ⟨_, h, .inl rfl⟩
  | waiting h hk => exact ⟨_, h, .inr ⟨_, rfl⟩⟩
  | returned h hk => exact ⟨_, h, .inr ⟨_, rfl⟩⟩

/-- The sleep number `i` follows the attempt at `c i`. -/
theorem retried_getElem {c : ℕ → κ} (hstart : c 0 = L.start)
    (hnext : ∀ i, L.next (c i) = some (c (i + 1)) ∨ L.next (c i) = none) {rounds i : ℕ}
    (hi : i < (L.run rounds).sleeps.length) : L.Retried (c i) ((L.run rounds).sleeps[i]) := by
  obtain ⟨front, hall, hfront⟩ := L.exists_front rounds
  have hlen := hall.length_eq
  have hnumbered := (L.numbered_run hstart hnext rounds).calls
  have hprefix : front <+: (L.run rounds).calls := by
    obtain heq | ⟨k, heq⟩ := hfront
    · exact heq ▸ List.prefix_rfl
    · exact heq ▸ List.prefix_append _ _
  have hi' : i < front.length := by omega
  have hget : front[i] = c i := by
    rw [List.IsPrefix.getElem hprefix]
    simp only [List.getElem_of_eq hnumbered, List.getElem_map, List.getElem_range]
  rw [← hget]
  exact hall.get hi' hi

section Alike

variable {β' : Type*} (R : β → β' → Prop)

def withAttempt (attempt : κ → Option (Except ε β')) : RetryLoop κ ε β' δ :=
  ⟨L.start, L.next, attempt, L.retry, L.cap⟩

/-- Two attempts that never resolve, fail with the same error or succeed with related values. -/
inductive Alike : Option (Except ε β) → Option (Except ε β') → Prop where
  | never : Alike none none
  | error (e : ε) : Alike (some (.error e)) (some (.error e))
  | ok {b : β} {b' : β'} (h : R b b') : Alike (some (.ok b)) (some (.ok b'))

theorem Alike.mono {R S : β → β' → Prop} (h : ∀ b b', R b b' → S b b')
    {x : Option (Except ε β)} {y : Option (Except ε β')} (hxy : Alike R x y) : Alike S x y := by
  cases hxy with
  | never => exact .never
  | error e => exact .error e
  | ok hb => exact .ok (h _ _ hb)

theorem Alike.symm {R : β → β' → Prop} {x : Option (Except ε β)} {y : Option (Except ε β')}
    (hxy : Alike R x y) : Alike (fun b' b => R b b') y x := by
  cases hxy with
  | never => exact .never
  | error e => exact .error e
  | ok hb => exact .ok hb

theorem Alike.comp {γ : Type*} {R : β → β' → Prop} {S : β' → γ → Prop}
    {x : Option (Except ε β)} {y : Option (Except ε β')} {z : Option (Except ε γ)}
    (hxy : Alike R x y) (hyz : Alike S y z) : Alike (fun b c => ∃ b', R b b' ∧ S b' c) x z := by
  cases hxy with
  | never => cases hyz; exact .never
  | error e => cases hyz; exact .error e
  | ok hb =>
      cases hyz with
      | ok hc => exact .ok ⟨_, hb, hc⟩

inductive PhaseAlike : Phase κ ε β → Phase κ ε β' → Prop where
  | ready (k : κ) : PhaseAlike (.ready k) (.ready k)
  | waiting : PhaseAlike .waiting .waiting
  | failed (e : ε) : PhaseAlike (.returned (.error e)) (.returned (.error e))
  | returned {b : β} {b' : β'} (h : R b b') : PhaseAlike (.returned (.ok b)) (.returned (.ok b'))
  | overflowed : PhaseAlike .overflowed .overflowed

structure TraceAlike (t : Trace κ ε β δ) (t' : Trace κ ε β' δ) : Prop where
  calls : t.calls = t'.calls
  sleeps : t.sleeps = t'.sleeps
  phase : PhaseAlike R t.phase t'.phase

variable {R} {attempt : κ → Option (Except ε β')}

theorem advance_alike (k : κ) : PhaseAlike R (L.advance k) ((L.withAttempt attempt).advance k) := by
  unfold advance withAttempt
  cases L.next k with
  | none => exact .overflowed
  | some k' => exact .ready k'

theorem step_alike (h : ∀ k, Alike R (L.attempt k) (attempt k)) {t : Trace κ ε β δ}
    {t' : Trace κ ε β' δ} (ht : TraceAlike R t t') :
    TraceAlike R (L.step t) ((L.withAttempt attempt).step t') := by
  obtain ⟨calls, sleeps, phase⟩ := t
  obtain ⟨calls', sleeps', phase'⟩ := t'
  obtain ⟨rfl, rfl, hphase⟩ := ht
  cases hphase with
  | ready k =>
      have hk := h k
      unfold step
      dsimp only [withAttempt]
      generalize L.attempt k = r at hk ⊢
      generalize attempt k = r' at hk ⊢
      cases hk with
      | never => exact ⟨rfl, rfl, .waiting⟩
      | ok h => exact ⟨rfl, rfl, .returned h⟩
      | error e =>
          dsimp only
          cases L.retry k e with
          | none => exact ⟨rfl, rfl, .failed e⟩
          | some d => exact ⟨rfl, rfl, L.advance_alike k⟩
  | waiting => exact ⟨rfl, rfl, .waiting⟩
  | failed e => exact ⟨rfl, rfl, .failed e⟩
  | returned h => exact ⟨rfl, rfl, .returned h⟩
  | overflowed => exact ⟨rfl, rfl, .overflowed⟩

/-- Loops whose attempts are alike run alike. -/
theorem run_alike (h : ∀ k, Alike R (L.attempt k) (attempt k)) (rounds : ℕ) :
    TraceAlike R (L.run rounds) ((L.withAttempt attempt).run rounds) := by
  induction rounds with
  | zero => exact ⟨rfl, rfl, .ready L.start⟩
  | succ n ih =>
      rw [run_succ, run_succ]
      exact L.step_alike h ih

end Alike

section Lenient

variable {retry : κ → ε → Option δ}

def withRetry (retry : κ → ε → Option δ) : RetryLoop κ ε β δ :=
  ⟨L.start, L.next, L.attempt, retry, L.cap⟩

/-- The loop has given up on an error that the other policy retries, after the sleep `d`. -/
structure GaveUp (retry : κ → ε → Option δ) (t : Trace κ ε β δ) (k : κ) (e : ε) (d : δ) : Prop where
  phase : t.phase = .returned (.error e)
  last : t.calls.getLast? = some k
  retried : retry k e = some d

/-- A step only adds to the calls and to the sleeps. -/
theorem step_isPrefix (t : Trace κ ε β δ) :
    t.calls <+: (L.step t).calls ∧ t.sleeps <+: (L.step t).sleeps := by
  unfold step
  split
  · split
    · exact ⟨List.prefix_append _ _, List.prefix_rfl⟩
    · exact ⟨List.prefix_append _ _, List.prefix_rfl⟩
    · split
      · exact ⟨List.prefix_append _ _, List.prefix_rfl⟩
      · exact ⟨List.prefix_append _ _, List.prefix_append _ _⟩
  · exact ⟨List.prefix_rfl, List.prefix_rfl⟩

/-- Where the policies agree, a step is the same; where they do not, the stricter loop gives up. -/
theorem step_withRetry (h : ∀ k e d, L.retry k e = some d → retry k e = some d)
    (t : Trace κ ε β δ) : (L.withRetry retry).step t = L.step t ∨
      ∃ k e d, GaveUp retry (L.step t) k e d ∧ ((L.withRetry retry).step t).calls = (L.step t).calls ∧
        ((L.withRetry retry).step t).sleeps = (L.step t).sleeps ++ [L.cap d] := by
  by_cases hready : ∃ k, t.phase = .ready k
  swap
  · rw [not_exists] at hready
    rw [L.step_halted hready, (L.withRetry retry).step_halted hready]
    exact .inl rfl
  obtain ⟨k, hphase⟩ := hready
  obtain hk | ⟨d, hk⟩ | ⟨r, hk⟩ := L.attempt_cases k
  · rw [L.step_waiting hphase hk]
    exact .inl ((L.withRetry retry).step_waiting hphase hk)
  · rw [L.step_retried hphase hk]
    obtain ⟨e, d', hattempt, hretry, rfl⟩ := hk
    exact .inl ((L.withRetry retry).step_retried hphase ⟨e, d', hattempt, h k e d' hretry, rfl⟩)
  rw [L.step_leaves hphase hk]
  obtain ⟨hattempt, -⟩ := hk
  rcases r with e | v
  · cases hretry : retry k e with
    | none =>
        refine .inl ((L.withRetry retry).step_leaves hphase ⟨hattempt, ?_⟩)
        rintro _ ⟨⟩
        exact hretry
    | some d =>
        rw [(L.withRetry retry).step_retried hphase ⟨e, d, hattempt, hretry, rfl⟩]
        exact .inr ⟨k, e, d, ⟨rfl, List.getLast?_concat, hretry⟩, rfl, rfl⟩
  · exact .inl ((L.withRetry retry).step_leaves hphase ⟨hattempt, by rintro _ ⟨⟩⟩)

/-- Under a policy that retries more, the loop runs the same, or goes on where it gave up. -/
theorem run_withRetry (h : ∀ k e d, L.retry k e = some d → retry k e = some d) (rounds : ℕ) :
    (L.withRetry retry).run rounds = L.run rounds ∨
      ∃ k e d, GaveUp retry (L.run rounds) k e d ∧
        (L.run rounds).calls <+: ((L.withRetry retry).run rounds).calls ∧
        (L.run rounds).sleeps ++ [L.cap d] <+: ((L.withRetry retry).run rounds).sleeps := by
  induction rounds with
  | zero => exact .inl rfl
  | succ n ih =>
      rw [run_succ, run_succ]
      obtain heq | ⟨k, e, d, hgave, hcalls, hsleeps⟩ := ih
      · rw [heq]
        refine (L.step_withRetry h _).imp_right ?_
        rintro ⟨k, e, d, hgave, hcalls, hsleeps⟩
        exact ⟨k, e, d, hgave, hcalls ▸ List.prefix_rfl, hsleeps ▸ List.prefix_rfl⟩
      · have hstep : L.step (L.run n) = L.run n := L.step_halted (by simp [hgave.phase])
        obtain ⟨hcalls', hsleeps'⟩ := (L.withRetry retry).step_isPrefix ((L.withRetry retry).run n)
        rw [hstep]
        exact .inr ⟨k, e, d, hgave, hcalls.trans hcalls', hsleeps.trans hsleeps'⟩

end Lenient

end RetryLoop
