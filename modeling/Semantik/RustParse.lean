import Mathlib.Data.List.Induction
import Mathlib.Data.List.TakeWhile
import Semantik.RustStd

/-!
# What trimming and parsing accept

An integer parser takes a non-empty text of digits with a sign before it or none. `trim` takes off
the white space on both sides and nothing else.
-/

namespace Semantik

def digitsValue (ds : List Char) : ℕ := ds.foldl (fun n c => n * 10 + (c.toNat - 48)) 0

structure IsNumber (ds : List Char) : Prop where
  ne_nil : ds ≠ []
  digits : ∀ c ∈ ds, c.isDigit = true

theorem toNat_of_isDigit {c : Char} (h : c.isDigit = true) : 48 ≤ c.toNat ∧ c.toNat ≤ 57 := by
  rw [Char.isDigit, Bool.and_eq_true, decide_eq_true_eq, decide_eq_true_eq] at h
  exact h

theorem parseDigits_eq_some_iff {cs : List Char} {v : ℕ} :
    parseDigits cs = some v ↔ IsNumber cs ∧ digitsValue cs = v := by
  unfold parseDigits
  split_ifs with h
  · rw [Option.some.injEq]
    exact (and_iff_right ⟨h.1, List.all_eq_true.1 h.2⟩).symm
  · apply iff_of_false (by simp)
    intro hnumber
    exact h ⟨hnumber.1.ne_nil, List.all_eq_true.2 hnumber.1.digits⟩

theorem digitsValue_concat (ds : List Char) (c : Char) :
    digitsValue (ds ++ [c]) = digitsValue ds * 10 + (c.toNat - 48) := by
  rw [digitsValue, List.foldl_append]
  rfl

theorem digitsValue_lt {ds : List Char} (h : ∀ c ∈ ds, c.isDigit = true) :
    digitsValue ds < 10 ^ ds.length := by
  induction ds using List.reverseRecOn with
  | nil => decide
  | append_singleton ds c ih =>
      have hds := ih (fun c' hc' => h c' (List.mem_append_left _ hc'))
      have hc := toNat_of_isDigit (h c (List.mem_append_right _ List.mem_cons_self))
      rw [digitsValue_concat, List.length_append, List.length_singleton, Nat.pow_succ]
      omega

def Unsigned (cs : List Char) (v : ℕ) : Prop :=
  ∃ ds, IsNumber ds ∧ digitsValue ds = v ∧ (cs = ds ∨ cs = '+' :: ds)

theorem not_isNumber_plus (ds : List Char) : ¬ IsNumber ('+' :: ds) := by
  intro h
  exact absurd (h.digits '+' List.mem_cons_self) (by decide)

theorem unsigned_plus {ds : List Char} {v : ℕ} :
    Unsigned ('+' :: ds) v ↔ IsNumber ds ∧ digitsValue ds = v := by
  constructor
  · rintro ⟨ds', hnumber, hv, heq | heq⟩
    · exact absurd (heq ▸ hnumber) (not_isNumber_plus ds)
    · obtain ⟨-, rfl⟩ := List.cons_eq_cons.1 heq
      exact ⟨hnumber, hv⟩
  · intro h
    exact ⟨ds, h.1, h.2, .inr rfl⟩

theorem unsigned_of_ne {cs : List Char} {v : ℕ} (h : ∀ ds, cs ≠ '+' :: ds) :
    Unsigned cs v ↔ IsNumber cs ∧ digitsValue cs = v := by
  constructor
  · rintro ⟨ds, hnumber, hv, rfl | heq⟩
    · exact ⟨hnumber, hv⟩
    · exact absurd heq (h ds)
  · intro hnumber
    exact ⟨cs, hnumber.1, hnumber.2, .inl rfl⟩

theorem filter_parseDigits_eq_some_iff {max v : ℕ} {cs : List Char} :
    (parseDigits cs).filter (· ≤ max) = some v ↔
      (IsNumber cs ∧ digitsValue cs = v) ∧ v ≤ max := by
  rw [Option.filter_eq_some_iff, parseDigits_eq_some_iff, decide_eq_true_eq]

theorem parseUnsigned_eq_some_iff {max v : ℕ} {cs : List Char} :
    parseUnsigned max cs = some v ↔ Unsigned cs v ∧ v ≤ max := by
  unfold parseUnsigned
  split
  · rw [filter_parseDigits_eq_some_iff, unsigned_plus]
  · next h => rw [filter_parseDigits_eq_some_iff, unsigned_of_ne h]

/-- The positive numbers that a signed parser finds. -/
theorem parseSigned_eq_some_iff {max v : ℕ} (hv : 0 < v) {cs : List Char} :
    parseSigned max cs = some (v : ℤ) ↔ Unsigned cs v ∧ v ≤ max := by
  have hcast : ∀ x : Option ℕ, x.map (fun n : ℕ => (n : ℤ)) = some (v : ℤ) ↔ x = some v := by
    intro x
    cases x <;> simp
  unfold parseSigned
  split
  · -- a minus sign makes the number negative, and is no digit
    next ds =>
    apply iff_of_false
    · intro h
      obtain ⟨n, -, hn⟩ := Option.map_eq_some_iff.1 h
      omega
    · rintro ⟨⟨ds', hnumber, -, heq | heq⟩, -⟩
      · have hminus := hnumber.digits '-' (heq ▸ List.mem_cons_self)
        cases hminus
      · cases heq
  · rw [hcast, filter_parseDigits_eq_some_iff, unsigned_plus]
  · next h => rw [hcast, filter_parseDigits_eq_some_iff, unsigned_of_ne h]

theorem not_isWhitespace_of_isDigit {c : Char} (h : c.isDigit = true) : isWhitespace c = false := by
  have hc := toNat_of_isDigit h
  unfold isWhitespace
  simp
  omega

/-- What `trim` takes off is white space. -/
theorem exists_trim (cs : List Char) : ∃ before after, cs = before ++ trim cs ++ after ∧
    (∀ c ∈ before, isWhitespace c = true) ∧ ∀ c ∈ after, isWhitespace c = true := by
  have hfront := List.takeWhile_append_dropWhile (p := isWhitespace) (l := cs)
  have hback := List.takeWhile_append_dropWhile (p := isWhitespace)
    (l := (cs.dropWhile isWhitespace).reverse)
  refine ⟨cs.takeWhile isWhitespace,
    ((cs.dropWhile isWhitespace).reverse.takeWhile isWhitespace).reverse, ?_, ?_, ?_⟩
  · rw [trim, List.append_assoc, ← List.reverse_append, hback, List.reverse_reverse, hfront]
  · intro c hc
    exact List.mem_takeWhile_imp hc
  · intro c hc
    exact List.mem_takeWhile_imp (List.mem_reverse.1 hc)

theorem dropWhile_of_head {cs : List Char} (h : ∀ c, cs.head? = some c → isWhitespace c = false) :
    cs.dropWhile isWhitespace = cs := by
  cases cs with
  | nil => rfl
  | cons c cs => exact List.dropWhile_cons_of_neg (by rw [h c rfl]; decide)

/-- A text without white space at its ends is left over. -/
theorem trim_append (before after : List Char) {cs : List Char}
    (hbefore : ∀ c ∈ before, isWhitespace c = true)
    (hafter : ∀ c ∈ after, isWhitespace c = true)
    (hhead : ∀ c, cs.head? = some c → isWhitespace c = false)
    (hlast : ∀ c, cs.getLast? = some c → isWhitespace c = false) (hne : cs ≠ []) :
    trim (before ++ cs ++ after) = cs := by
  have hafter' : ∀ c ∈ after.reverse, isWhitespace c = true :=
    fun c hc => hafter c (List.mem_reverse.1 hc)
  have hhead' : ∀ c, (cs ++ after).head? = some c → isWhitespace c = false := by
    intro c hc
    rw [List.head?_append_of_ne_nil _ hne] at hc
    exact hhead c hc
  have hlast' : ∀ c, cs.reverse.head? = some c → isWhitespace c = false := by
    intro c hc
    rw [List.head?_reverse] at hc
    exact hlast c hc
  rw [trim, List.append_assoc, List.dropWhile_append_of_pos hbefore, dropWhile_of_head hhead',
    List.reverse_append, List.dropWhile_append_of_pos hafter', dropWhile_of_head hlast',
    List.reverse_reverse]

end Semantik
