import Mathlib.Data.List.Basic

/-!
# Fallible transducers

A transducer reads one item at a time, emits a list of outputs, and may stop with an error. `run`
feeds it a list of items up to the first error and keeps what it emitted before that.
-/

namespace Transducer

variable {σ τ ι ε ο : Type*}

/-- The state reached, the outputs emitted, and the error that stopped the run, if any. -/
structure Run (σ ε ο : Type*) where
  out : List ο
  state : σ
  stop : Option ε

def run (step : σ → ι → Except ε (List ο) × σ) : σ → List ι → Run σ ε ο
  | s, [] => ⟨[], s, none⟩
  | s, x :: xs =>
    match step s x with
    | (.ok o, s') => ⟨o ++ (run step s' xs).out, (run step s' xs).state, (run step s' xs).stop⟩
    | (.error e, s') => ⟨[], s', some e⟩

variable {step : σ → ι → Except ε (List ο) × σ}

@[simp] theorem run_nil (s : σ) : run step s [] = ⟨[], s, none⟩ := rfl

theorem run_cons_ok {s s' : σ} {x : ι} {o : List ο} (h : step s x = (.ok o, s')) (xs : List ι) :
    run step s (x :: xs) =
      ⟨o ++ (run step s' xs).out, (run step s' xs).state, (run step s' xs).stop⟩ := by
  simp only [run, h]

theorem run_cons_error {s s' : σ} {x : ι} {e : ε} (h : step s x = (.error e, s')) (xs : List ι) :
    run step s (x :: xs) = ⟨[], s', some e⟩ := by
  simp only [run, h]

/-- A run that did not stop is continued by running on from the state it reached. -/
theorem run_append {s : σ} {xs : List ι} (h : (run step s xs).stop = none) (ys : List ι) :
    run step s (xs ++ ys) =
      ⟨(run step s xs).out ++ (run step (run step s xs).state ys).out,
        (run step (run step s xs).state ys).state, (run step (run step s xs).state ys).stop⟩ := by
  induction xs generalizing s with
  | nil => simp
  | cons x xs ih =>
      rcases hx : step s x with ⟨_ | o, s'⟩
      · simp [run_cons_error hx] at h
      · rw [run_cons_ok hx] at h
        rw [List.cons_append, run_cons_ok hx, run_cons_ok hx, ih h, List.append_assoc]

/-- Once stopped, further items are not read. -/
theorem run_append_of_stop {s : σ} {xs : List ι} {e : ε} (h : (run step s xs).stop = some e)
    (ys : List ι) : run step s (xs ++ ys) = run step s xs := by
  induction xs generalizing s with
  | nil => simp at h
  | cons x xs ih =>
      rcases hx : step s x with ⟨_ | o, s'⟩
      · rw [List.cons_append, run_cons_error hx, run_cons_error hx]
      · rw [run_cons_ok hx] at h
        rw [List.cons_append, run_cons_ok hx, run_cons_ok hx, ih h]

/-- The outputs of an initial segment come first. -/
theorem run_out_isPrefix (s : σ) (xs ys : List ι) :
    (run step s xs).out <+: (run step s (xs ++ ys)).out := by
  cases h : (run step s xs).stop with
  | none =>
      rw [run_append h]
      exact List.prefix_append _ _
  | some e => simp only [run_append_of_stop h, List.prefix_rfl]

/-- A stopped run splits at the item that stopped it. -/
theorem exists_of_run_stop {s : σ} {xs : List ι} {e : ε} (h : (run step s xs).stop = some e) :
    ∃ pre x post, xs = pre ++ x :: post ∧ (run step s pre).stop = none ∧
      (step (run step s pre).state x).1 = .error e ∧
      (run step s xs).out = (run step s pre).out := by
  induction xs generalizing s with
  | nil => simp at h
  | cons x xs ih =>
      rcases hx : step s x with ⟨e' | o, s'⟩
      · rw [run_cons_error hx] at h
        refine ⟨[], x, xs, rfl, rfl, ?_, by rw [run_cons_error hx]; rfl⟩
        simpa [hx] using h
      · rw [run_cons_ok hx] at h
        obtain ⟨pre, y, post, rfl, hpre, hstep, hout⟩ := ih h
        refine ⟨x :: pre, y, post, rfl, ?_, ?_, ?_⟩
        · simpa only [run_cons_ok hx] using hpre
        · simpa only [run_cons_ok hx] using hstep
        · simp only [run_cons_ok hx, hout]

/-- An invariant that each successful step keeps holds wherever a run arrives without stopping. -/
theorem run_invariant (Inv : σ → Prop)
    (hstep : ∀ s x o s', Inv s → step s x = (.ok o, s') → Inv s') {s : σ} (hs : Inv s)
    {xs : List ι} (h : (run step s xs).stop = none) : Inv (run step s xs).state := by
  induction xs generalizing s with
  | nil => exact hs
  | cons x xs ih =>
      rcases hx : step s x with ⟨_ | o, s'⟩
      · simp [run_cons_error hx] at h
      · rw [run_cons_ok hx] at h ⊢
        exact ih (hstep s x o s' hs hx) h

/-- Two transducers whose states are matched by `f`, and whose steps agree through it, have the
same runs. -/
theorem run_map {step' : τ → ι → Except ε (List ο) × τ} (f : σ → τ)
    (hf : ∀ s x, step' (f s) x = ((step s x).1, f (step s x).2)) (s : σ) (xs : List ι) :
    run step' (f s) xs =
      ⟨(run step s xs).out, f (run step s xs).state, (run step s xs).stop⟩ := by
  induction xs generalizing s with
  | nil => rfl
  | cons x xs ih =>
      rcases hx : step s x with ⟨e | o, s'⟩
      · have hx' : step' (f s) x = (.error e, f s') := by rw [hf, hx]
        rw [run_cons_error hx, run_cons_error hx']
      · have hx' : step' (f s) x = (.ok o, f s') := by rw [hf, hx]
        rw [run_cons_ok hx, run_cons_ok hx', ih]

end Transducer
