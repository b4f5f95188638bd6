import Mathlib.Data.List.Perm.Basic

/-!
# Rules in order

A list of rules, each broken or not and with a message. The first broken rule is the one that is
reported. Where the rules are those of a collection without an order, any element that breaks one
can come first.
-/

namespace OrderedRules

variable {α μ : Type*}

abbrev Rule (μ : Type*) := Bool × μ

def rule (condition : Prop) [Decidable condition] (message : μ) : Rule μ :=
  (decide condition, message)

def firstBroken : List (Rule μ) → Option μ
  | [] => none
  | (broken, message) :: rules => if broken then some message else firstBroken rules

theorem firstBroken_append (rules rules' : List (Rule μ)) :
    firstBroken (rules ++ rules') = (firstBroken rules).or (firstBroken rules') := by
  induction rules with
  | nil => rfl
  | cons rule rules ih =>
      obtain ⟨broken, message⟩ := rule
      cases broken with
      | false => exact ih
      | true => rfl

theorem firstBroken_eq_none_iff {rules : List (Rule μ)} :
    firstBroken rules = none ↔ ∀ rule ∈ rules, rule.1 = false := by
  induction rules with
  | nil => simp [firstBroken]
  | cons rule rules ih =>
      obtain ⟨broken, message⟩ := rule
      cases broken with
      | false => simpa [firstBroken] using ih
      | true => simp [firstBroken]

theorem firstBroken_flatMap_eq_none_iff {l : List α} {rules : α → List (Rule μ)} :
    firstBroken (l.flatMap rules) = none ↔ ∀ a ∈ l, firstBroken (rules a) = none := by
  induction l with
  | nil => simp [firstBroken]
  | cons a l ih =>
      rw [List.flatMap_cons, firstBroken_append, Option.or_eq_none_iff, ih, List.forall_mem_cons]

theorem exists_of_firstBroken_flatMap {l : List α} {rules : α → List (Rule μ)} {message : μ}
    (h : firstBroken (l.flatMap rules) = some message) :
    ∃ a ∈ l, firstBroken (rules a) = some message := by
  induction l with
  | nil => cases h
  | cons a l ih =>
      rw [List.flatMap_cons, firstBroken_append, Option.or_eq_some_iff] at h
      obtain hfirst | ⟨-, hrest⟩ := h
      · exact ⟨a, List.mem_cons_self, hfirst⟩
      · obtain ⟨b, hb, hmessage⟩ := ih hrest
        exact ⟨b, List.mem_cons_of_mem a hb, hmessage⟩

/-- Over all orders of a collection, what is reported is what is reported of its elements. -/
theorem exists_perm_firstBroken_iff {l : List α} {rules : α → List (Rule μ)} {message : μ} :
    (∃ l' : List α, l'.Perm l ∧ firstBroken (l'.flatMap rules) = some message) ↔
      ∃ a ∈ l, firstBroken (rules a) = some message := by
  constructor
  · rintro ⟨l', hperm, h⟩
    obtain ⟨a, ha, hmessage⟩ := exists_of_firstBroken_flatMap h
    exact ⟨a, hperm.mem_iff.1 ha, hmessage⟩
  · rintro ⟨a, ha, hmessage⟩
    obtain ⟨before, after, rfl⟩ := List.append_of_mem ha
    refine ⟨a :: (before ++ after), List.perm_middle.symm, ?_⟩
    rw [List.flatMap_cons, firstBroken_append, hmessage]
    rfl

/-- The same with rules before and after those of the collection, which do not depend on its
order. -/
theorem exists_perm_firstBroken_append_iff {before after : List (Rule μ)} {l : List α}
    {rules : α → List (Rule μ)} {message : μ} :
    (∃ l' : List α, l'.Perm l ∧
        firstBroken (before ++ (l'.flatMap rules ++ after)) = some message) ↔
      firstBroken before = some message ∨ firstBroken before = none ∧
        ((∃ a ∈ l, firstBroken (rules a) = some message) ∨
          (∀ a ∈ l, firstBroken (rules a) = none) ∧ firstBroken after = some message) := by
  simp only [firstBroken_append]
  cases hbefore : firstBroken before with
  | some message' =>
      simp only [Option.some_or, reduceCtorEq, false_and, or_false]
      exact ⟨fun ⟨_, _, h⟩ => h, fun h => ⟨l, .refl l, h⟩⟩
  | none =>
      simp only [Option.none_or, reduceCtorEq, false_or, true_and, Option.or_eq_some_iff,
        firstBroken_flatMap_eq_none_iff]
      rw [← exists_perm_firstBroken_iff]
      constructor
      · rintro ⟨l', hperm, h | ⟨hnone, h⟩⟩
        · exact .inl ⟨l', hperm, h⟩
        · exact .inr ⟨fun a ha => hnone a (hperm.mem_iff.2 ha), h⟩
      · rintro (⟨l', hperm, h⟩ | h)
        · exact ⟨l', hperm, .inl h⟩
        · exact ⟨l, .refl l, .inr h⟩

variable {ε β : Type*} (fail : μ → ε)

def check (rules : List (Rule μ)) : Except ε Unit :=
  match firstBroken rules with
  | none => .ok ()
  | some message => .error (fail message)

theorem check_append (rules rules' : List (Rule μ)) :
    check fail (rules ++ rules') = check fail rules >>= fun _ => check fail rules' := by
  unfold check
  rw [firstBroken_append]
  cases firstBroken rules with
  | none => rfl
  | some message => rfl

/-- Rules that are kept change nothing. -/
theorem check_append_of_kept (rules : List (Rule μ)) {rules' : List (Rule μ)}
    (h : ∀ rule ∈ rules', rule.1 = false) : check fail (rules ++ rules') = check fail rules := by
  unfold check
  rw [firstBroken_append, firstBroken_eq_none_iff.2 h, Option.or_none]

theorem check_eq_error_iff {rules : List (Rule μ)} {err : ε} :
    check fail rules = .error err ↔ ∃ message, firstBroken rules = some message ∧
      err = fail message := by
  unfold check
  cases firstBroken rules with
  | none => simp
  | some message => simp [eq_comm]

end OrderedRules
