import Mathlib.Data.List.Basic
import Mathlib.Tactic.IntervalCases

/-!
# Decoding UTF-8 that may be malformed

`decode` cuts a byte sequence into well-formed characters, `some c`, and maximal malformed
sequences, `none`: a malformed sequence is as long as the bytes read so far could still have begun
a character. Overlong forms, surrogates and values above `U+10FFFF` are malformed from their second
byte on. `lossy` puts `U+FFFD` for every malformed sequence, `strict` accepts only text without any.
-/

namespace Utf8

def isCont (b : UInt8) : Bool := 0x80 ≤ b && b ≤ 0xBF

def isSecondOfThree (b₀ b₁ : UInt8) : Bool :=
  if b₀ = 0xE0 then 0xA0 ≤ b₁ && b₁ ≤ 0xBF
  else if b₀ = 0xED then 0x80 ≤ b₁ && b₁ ≤ 0x9F
  else isCont b₁

def isSecondOfFour (b₀ b₁ : UInt8) : Bool :=
  if b₀ = 0xF0 then 0x90 ≤ b₁ && b₁ ≤ 0xBF
  else if b₀ = 0xF4 then 0x80 ≤ b₁ && b₁ ≤ 0x8F
  else isCont b₁

def contBits (b : UInt8) (place : ℕ) : ℕ := (b.toNat % 64) * 64 ^ place

/-- What starts at byte `b₀`, and how many of the bytes after it belong to it. -/
def first (b₀ : UInt8) (s : List UInt8) : Option Char × ℕ :=
  if b₀ < 0x80 then (some (Char.ofNat b₀.toNat), 0)
  else if 0xC2 ≤ b₀ && b₀ ≤ 0xDF then
    match s with
    | b₁ :: _ =>
      if isCont b₁ then (some (Char.ofNat ((b₀.toNat % 32) * 64 + contBits b₁ 0)), 1) else (none, 0)
    | [] => (none, 0)
  else if 0xE0 ≤ b₀ && b₀ ≤ 0xEF then
    match s with
    | b₁ :: b₂ :: _ =>
      if !isSecondOfThree b₀ b₁ then (none, 0)
      else if !isCont b₂ then (none, 1)
      else (some (Char.ofNat ((b₀.toNat % 16) * 64 ^ 2 + contBits b₁ 1 + contBits b₂ 0)), 2)
    | [b₁] => (none, if isSecondOfThree b₀ b₁ then 1 else 0)
    | [] => (none, 0)
  else if 0xF0 ≤ b₀ && b₀ ≤ 0xF4 then
    match s with
    | b₁ :: b₂ :: b₃ :: _ =>
      if !isSecondOfFour b₀ b₁ then (none, 0)
      else if !isCont b₂ then (none, 1)
      else if !isCont b₃ then (none, 2)
      else (some (Char.ofNat
        ((b₀.toNat % 8) * 64 ^ 3 + contBits b₁ 2 + contBits b₂ 1 + contBits b₃ 0)), 3)
    | [b₁, b₂] => (none, if !isSecondOfFour b₀ b₁ then 0 else if !isCont b₂ then 1 else 2)
    | [b₁] => (none, if isSecondOfFour b₀ b₁ then 1 else 0)
    | [] => (none, 0)
  else (none, 0)

/-- `skip` bytes still belong to the sequence already reported. -/
def decodeFrom : ℕ → List UInt8 → List (Option Char)
  | _, [] => []
  | skip + 1, _ :: s => decodeFrom skip s
  | 0, b :: s => (first b s).1 :: decodeFrom (first b s).2 s

def decode (s : List UInt8) : List (Option Char) := decodeFrom 0 s

def lossy (s : List UInt8) : String :=
  String.ofList ((decode s).map (fun c => c.getD (Char.ofNat 0xFFFD)))

def strict (s : List UInt8) : Option (List Char) := (decode s).mapM id

example : lossy [0x68, 0xC3, 0xA9, 0xE2, 0x82, 0x21, 0xF0, 0x9F, 0x98, 0x80] = "hé\uFFFD!😀" := by
  decide

@[simp] theorem lossy_nil : lossy [] = "" := rfl

theorem lossy_eq_empty_iff {s : List UInt8} : lossy s = "" ↔ s = [] := by
  constructor
  · intro h
    cases s with
    | nil => rfl
    | cons b s =>
        have hlen : (lossy (b :: s)).length = 0 := by rw [h]; rfl
        simp [lossy, decode, decodeFrom] at hlen
  · rintro rfl
    rfl

/-- A reported sequence never reaches past the input. -/
theorem first_le (b : UInt8) (s : List UInt8) : (first b s).2 ≤ s.length := by
  unfold first
  split_ifs
  · exact Nat.zero_le _
  · split
    · split_ifs <;> simp
    · simp
  · split
    · split_ifs <;> simp
    · split_ifs <;> simp
    · simp
  · split
    · split_ifs <;> simp
    · split_ifs <;> simp
    · split_ifs <;> simp
    · simp
  · exact Nat.zero_le _

theorem utf8Size_ascii {b : UInt8} (hb : b < 0x80) : (Char.ofNat b.toNat).utf8Size = 1 := by
  have hlt : b.toNat < 128 := by simpa [UInt8.lt_iff_toNat_lt] using hb
  generalize b.toNat = n at hlt
  interval_cases n <;> rfl

theorem first_none_or_pos {b : UInt8} (hb : ¬ b < 0x80) (s : List UInt8) :
    (first b s).1 = none ∨ 0 < (first b s).2 := by
  unfold first
  rw [if_neg hb]
  split_ifs
  · split
    · split_ifs <;> simp
    · simp
  · split
    · split_ifs <;> simp
    · simp
    · simp
  · split
    · split_ifs <;> simp
    · simp
    · simp
    · simp
  · simp

/-- A reported sequence of `n` bytes is decoded to at most `3 * n` bytes. -/
theorem first_utf8Size (b : UInt8) (s : List UInt8) :
    ((first b s).1.getD (Char.ofNat 0xFFFD)).utf8Size ≤ 3 * ((first b s).2 + 1) := by
  by_cases hb : b < 0x80
  · simp [first, hb, utf8Size_ascii hb]
  · rcases first_none_or_pos hb s with hnone | hpos
    · have hrep : ((none : Option Char).getD (Char.ofNat 0xFFFD)).utf8Size = 3 := by decide
      rw [hnone, hrep]
      omega
    · have hfour := Char.utf8Size_le_four ((first b s).1.getD (Char.ofNat 0xFFFD))
      omega

theorem decodeFrom_utf8ByteSize (skip : ℕ) (s : List UInt8) (h : skip ≤ s.length) :
    (String.ofList ((decodeFrom skip s).map (fun c => c.getD (Char.ofNat 0xFFFD)))).utf8ByteSize +
      3 * skip ≤ 3 * s.length := by
  induction s generalizing skip with
  | nil =>
      obtain rfl : skip = 0 := by simpa using h
      simp [decodeFrom]
  | cons b s ih =>
      rw [List.length_cons] at h ⊢
      cases skip with
      | zero =>
          have hc := first_utf8Size b s
          have hs := ih (first b s).2 (first_le b s)
          simp only [decodeFrom, List.map_cons, String.ofList_cons, String.utf8ByteSize_append,
            String.utf8ByteSize_singleton]
          omega
      | succ skip =>
          have hs := ih skip (by omega)
          simp only [decodeFrom]
          omega

theorem lossy_utf8ByteSize_le (s : List UInt8) : (lossy s).utf8ByteSize ≤ 3 * s.length :=
  decodeFrom_utf8ByteSize 0 s (Nat.zero_le _)

theorem encodeChar_ascii {c : Char} (h : c.toNat < 0x80) :
    String.utf8EncodeChar c = [UInt8.ofNat c.toNat] := by
  unfold String.utf8EncodeChar
  exact if_pos (Nat.le_of_lt_succ h)

/-- All bytes of a character above ASCII are above ASCII. -/
theorem le_of_mem_encodeChar {c : Char} (h : 0x80 ≤ c.toNat) {b : UInt8}
    (hb : b ∈ String.utf8EncodeChar c) : 0x80 ≤ b.toNat := by
  have hv : ¬ c.val.toNat ≤ 0x7F := Nat.not_le.2 h
  simp only [String.utf8EncodeChar, if_neg hv] at hb
  split_ifs at hb <;> simp only [List.mem_cons, List.not_mem_nil, or_false] at hb
  · rcases hb with rfl | rfl <;> simp only [UInt8.toNat_ofNat'] <;> omega
  · rcases hb with rfl | rfl | rfl <;> simp only [UInt8.toNat_ofNat'] <;> omega
  · rcases hb with rfl | rfl | rfl | rfl <;> simp only [UInt8.toNat_ofNat'] <;> omega

/-- An ASCII byte occurs in a text exactly as the character it encodes. -/
theorem mem_encode_ascii {s : List Char} {b : UInt8} (h : b.toNat < 0x80) :
    b ∈ s.flatMap String.utf8EncodeChar ↔ ∃ c ∈ s, c.toNat = b.toNat := by
  rw [List.mem_flatMap]
  constructor
  · rintro ⟨c, hc, hb⟩
    by_cases hascii : c.toNat < 0x80
    · rw [encodeChar_ascii hascii, List.mem_singleton] at hb
      refine ⟨c, hc, ?_⟩
      rw [hb, UInt8.toNat_ofNat', Nat.mod_eq_of_lt (hascii.trans (by norm_num))]
    · exact absurd (le_of_mem_encodeChar (not_lt.1 hascii) hb) (not_le.2 h)
  · rintro ⟨c, hc, heq⟩
    refine ⟨c, hc, ?_⟩
    rw [encodeChar_ascii (heq ▸ h), List.mem_singleton, heq, UInt8.ofNat_toNat]

/-- A property of ASCII values holds of some byte of a text exactly if it holds of some character. -/
theorem exists_mem_encode_iff {P : ℕ → Prop} (h : ∀ n, P n → n < 0x80) {s : List Char} :
    (∃ b ∈ s.flatMap String.utf8EncodeChar, P b.toNat) ↔ ∃ c ∈ s, P c.toNat := by
  constructor
  · rintro ⟨b, hb, hP⟩
    obtain ⟨c, hc, heq⟩ := (mem_encode_ascii (h _ hP)).1 hb
    exact ⟨c, hc, heq ▸ hP⟩
  · rintro ⟨c, hc, hP⟩
    have hnat : (UInt8.ofNat c.toNat).toNat = c.toNat := by
      rw [UInt8.toNat_ofNat', Nat.mod_eq_of_lt ((h _ hP).trans (by norm_num))]
    refine ⟨UInt8.ofNat c.toNat, (mem_encode_ascii ?_).2 ⟨c, hc, hnat.symm⟩, hnat.symm ▸ hP⟩
    rw [hnat]
    exact h _ hP

theorem toNat_ofNat {n : ℕ} (h : n.isValidChar) : (Char.ofNat n).toNat = n := by
  rw [Char.ofNat, dif_pos h]
  rfl

def asciiByte (c : Char) : UInt8 := UInt8.ofNat c.toNat

theorem toNat_asciiByte {c : Char} (h : c.toNat < 0x80) : (asciiByte c).toNat = c.toNat := by
  rw [asciiByte, UInt8.toNat_ofNat', Nat.mod_eq_of_lt (by omega)]

theorem encode_ascii {cs : List Char} (h : ∀ c ∈ cs, c.toNat < 0x80) :
    cs.flatMap String.utf8EncodeChar = cs.map asciiByte := by
  induction cs with
  | nil => rfl
  | cons c cs ih =>
      rw [List.flatMap_cons, encodeChar_ascii (h c List.mem_cons_self),
        ih (fun c' hc' => h c' (List.mem_cons_of_mem c hc'))]
      rfl

theorem ofNat_ascii {b : UInt8} (hb : b < 0x80) :
    (Char.ofNat b.toNat).toNat < 0x80 ∧ asciiByte (Char.ofNat b.toNat) = b := by
  have hlt : b.toNat < 128 := UInt8.lt_iff_toNat_lt.1 hb
  have hvalue := toNat_ofNat (.inl (by omega) : b.toNat.isValidChar)
  rw [asciiByte, hvalue, UInt8.ofNat_toNat]
  exact ⟨hlt, rfl⟩

theorem between_iff {a b c : UInt8} :
    (decide (a ≤ b) && decide (b ≤ c)) = true ↔ a.toNat ≤ b.toNat ∧ b.toNat ≤ c.toNat := by
  rw [Bool.and_eq_true, decide_eq_true_eq, decide_eq_true_eq, UInt8.le_iff_toNat_le,
    UInt8.le_iff_toNat_le]

theorem isCont_iff {b : UInt8} : isCont b = true ↔ 0x80 ≤ b.toNat ∧ b.toNat ≤ 0xBF := between_iff

theorem toNat_ne {b : UInt8} {n : ℕ} (h : b ≠ UInt8.ofNat n) : b.toNat ≠ n := by
  intro heq
  exact h (by rw [← heq, UInt8.ofNat_toNat])

/-- The second byte keeps a three-byte character from being overlong or a surrogate. -/
theorem isSecondOfThree_bounds {b₀ b₁ : UInt8} (h : isSecondOfThree b₀ b₁ = true) :
    0x80 ≤ b₁.toNat ∧ b₁.toNat ≤ 0xBF ∧ (b₀.toNat = 0xE0 → 0xA0 ≤ b₁.toNat) ∧
      (b₀.toNat = 0xED → b₁.toNat ≤ 0x9F) := by
  unfold isSecondOfThree at h
  split_ifs at h with hE0 hED
  · obtain ⟨hlo, hhi⟩ : 0xA0 ≤ b₁.toNat ∧ b₁.toNat ≤ 0xBF := between_iff.1 h
    refine ⟨by omega, hhi, fun _ => hlo, ?_⟩
    intro hED
    rw [hE0] at hED
    cases hED
  · obtain ⟨hlo, hhi⟩ : 0x80 ≤ b₁.toNat ∧ b₁.toNat ≤ 0x9F := between_iff.1 h
    refine ⟨hlo, by omega, ?_, fun _ => hhi⟩
    intro hE0
    rw [hED] at hE0
    cases hE0
  · have hcont := isCont_iff.1 h
    have hne : b₀.toNat ≠ 0xE0 := toNat_ne hE0
    have hne' : b₀.toNat ≠ 0xED := toNat_ne hED
    omega

/-- The second byte keeps a four-byte character from being overlong or too large. -/
theorem isSecondOfFour_bounds {b₀ b₁ : UInt8} (h : isSecondOfFour b₀ b₁ = true) :
    0x80 ≤ b₁.toNat ∧ b₁.toNat ≤ 0xBF ∧ (b₀.toNat = 0xF0 → 0x90 ≤ b₁.toNat) ∧
      (b₀.toNat = 0xF4 → b₁.toNat ≤ 0x8F) := by
  unfold isSecondOfFour at h
  split_ifs at h with hF0 hF4
  · obtain ⟨hlo, hhi⟩ : 0x90 ≤ b₁.toNat ∧ b₁.toNat ≤ 0xBF := between_iff.1 h
    refine ⟨by omega, hhi, fun _ => hlo, ?_⟩
    intro hF4
    rw [hF0] at hF4
    cases hF4
  · obtain ⟨hlo, hhi⟩ : 0x80 ≤ b₁.toNat ∧ b₁.toNat ≤ 0x8F := between_iff.1 h
    refine ⟨hlo, by omega, ?_, fun _ => hhi⟩
    intro hF0
    rw [hF4] at hF0
    cases hF0
  · have hcont := isCont_iff.1 h
    have hne : b₀.toNat ≠ 0xF0 := toNat_ne hF0
    have hne' : b₀.toNat ≠ 0xF4 := toNat_ne hF4
    omega

/-- What starts at a byte above ASCII is a character above ASCII. -/
theorem first_not_ascii {b : UInt8} {s : List UInt8} {c : Char} (hb : ¬ b < 0x80)
    (h : (first b s).1 = some c) : 0x80 ≤ c.toNat := by
  have hvalue : ∀ {n : ℕ}, some (Char.ofNat n) = some c → 0x80 ≤ n → n.isValidChar →
      0x80 ≤ c.toNat := by
    intro n hc hn hvalid
    rwa [← Option.some.inj hc, toNat_ofNat hvalid]
  unfold first at h
  rw [if_neg hb] at h
  split_ifs at h with h2 h3 h4
  · obtain ⟨hlo, hhi⟩ : 0xC2 ≤ b.toNat ∧ b.toNat ≤ 0xDF := between_iff.1 h2
    split at h
    · split_ifs at h with hc
      apply hvalue h
      · omega
      · left
        rw [contBits]
        omega
    · cases h
  · obtain ⟨hlo, hhi⟩ : 0xE0 ≤ b.toNat ∧ b.toNat ≤ 0xEF := between_iff.1 h3
    split at h
    · split_ifs at h with hc hc'
      rw [Bool.not_eq_true', Bool.not_eq_false] at hc
      have hsecond := isSecondOfThree_bounds hc
      apply hvalue h
      · simp only [contBits]
        omega
      · simp only [contBits, Nat.isValidChar]
        omega
    · cases h
    · cases h
  · obtain ⟨hlo, hhi⟩ : 0xF0 ≤ b.toNat ∧ b.toNat ≤ 0xF4 := between_iff.1 h4
    split at h
    · split_ifs at h with hc hc' hc''
      rw [Bool.not_eq_true', Bool.not_eq_false] at hc
      have hsecond := isSecondOfFour_bounds hc
      apply hvalue h
      · simp only [contBits]
        omega
      · simp only [contBits, Nat.isValidChar]
        omega
    · cases h
    · cases h
    · cases h

theorem mapM_id_eq_some_iff {α : Type*} {l : List (Option α)} {as : List α} :
    l.mapM id = some as ↔ l = as.map some := by
  induction l generalizing as with
  | nil => cases as <;> simp
  | cons x l ih =>
      cases x with
      | none => cases as <;> simp
      | some a =>
          have hcons : (some a :: l).mapM id = (l.mapM id).map (a :: ·) := by
            rw [List.mapM_cons]
            cases l.mapM id <;> rfl
          rw [hcons, Option.map_eq_some_iff]
          simp only [ih]
          constructor
          · rintro ⟨as', rfl, rfl⟩
            rfl
          · intro h
            cases as with
            | nil => cases h
            | cons a' as =>
                obtain ⟨ha, hl⟩ := List.cons_eq_cons.1 h
                exact ⟨as, hl, by rw [Option.some.inj ha]⟩

theorem strict_eq_some_iff {s : List UInt8} {cs : List Char} :
    strict s = some cs ↔ decode s = cs.map some := mapM_id_eq_some_iff

/-- A decoded text is no longer than its bytes. It is as long only if it is ASCII, and then its bytes
are those of its characters. -/
theorem decodeFrom_ascii {skip : ℕ} {s : List UInt8} {cs : List Char}
    (h : decodeFrom skip s = cs.map some) (hskip : skip ≤ s.length) :
    cs.length + skip ≤ s.length ∧ (cs.length + skip = s.length → ∀ c ∈ cs, c.toNat < 0x80) ∧
      ((∀ c ∈ cs, c.toNat < 0x80) → s.drop skip = cs.map asciiByte) := by
  induction s generalizing skip cs with
  | nil =>
      obtain rfl : cs = [] := by simpa [decodeFrom] using h.symm
      simpa using hskip
  | cons b s ih =>
      rw [List.length_cons] at hskip ⊢
      cases skip with
      | succ skip =>
          obtain ⟨hle, hlen, hbytes⟩ := ih h (by omega)
          exact ⟨by omega, fun heq => hlen (by omega), hbytes⟩
      | zero =>
          cases cs with
          | nil => cases h
          | cons c cs =>
              obtain ⟨hc, hcs⟩ := List.cons_eq_cons.1 h
              obtain ⟨hle, hlen, hbytes⟩ := ih hcs (first_le b s)
              rw [List.length_cons, List.forall_mem_cons]
              by_cases hb : b < 0x80
              · have hfirst : first b s = (some (Char.ofNat b.toNat), 0) := if_pos hb
                obtain ⟨hascii, hbyte⟩ := ofNat_ascii hb
                rw [hfirst] at hc hle hlen hbytes
                obtain rfl := Option.some.inj hc
                refine ⟨by omega, fun heq => ⟨hascii, hlen (by omega)⟩, fun hall => ?_⟩
                rw [List.drop_zero, List.map_cons, hbyte, ← hbytes hall.2]
                rfl
              · have hpos : 0 < (first b s).2 := by
                  rcases first_none_or_pos hb s with hnone | hpos
                  · rw [hnone] at hc
                    cases hc
                  · exact hpos
                have hc' := first_not_ascii hb hc
                exact ⟨by omega, fun heq => by omega, fun hall => by omega⟩

theorem decodeFrom_map_asciiByte {cs : List Char} (h : ∀ c ∈ cs, c.toNat < 0x80) :
    decodeFrom 0 (cs.map asciiByte) = cs.map some := by
  induction cs with
  | nil => rfl
  | cons c cs ih =>
      have hc := h c List.mem_cons_self
      have hlt : asciiByte c < 0x80 := by
        rw [UInt8.lt_iff_toNat_lt, toNat_asciiByte hc]
        exact hc
      have hfirst : first (asciiByte c) (cs.map asciiByte) = (some c, 0) := by
        refine (if_pos hlt).trans ?_
        rw [toNat_asciiByte hc, Char.ofNat_toNat]
      rw [List.map_cons, decodeFrom, hfirst, ih (fun c' hc' => h c' (List.mem_cons_of_mem c hc')),
        List.map_cons]

theorem strict_map_asciiByte {cs : List Char} (h : ∀ c ∈ cs, c.toNat < 0x80) :
    strict (cs.map asciiByte) = some cs := strict_eq_some_iff.2 (decodeFrom_map_asciiByte h)

/-- The bytes of an ASCII text are determined by it. -/
theorem eq_map_asciiByte {s : List UInt8} {cs : List Char} (h : strict s = some cs)
    (hascii : ∀ c ∈ cs, c.toNat < 0x80) : s = cs.map asciiByte :=
  (decodeFrom_ascii (strict_eq_some_iff.1 h) (Nat.zero_le _)).2.2 hascii

theorem length_le_of_strict {s : List UInt8} {cs : List Char} (h : strict s = some cs) :
    cs.length ≤ s.length ∧ (cs.length = s.length → ∀ c ∈ cs, c.toNat < 0x80) :=
  ⟨(decodeFrom_ascii (strict_eq_some_iff.1 h) (Nat.zero_le _)).1,
    (decodeFrom_ascii (strict_eq_some_iff.1 h) (Nat.zero_le _)).2.1⟩

theorem not_ascii {b : UInt8} (h : 0x80 ≤ b.toNat) : ¬ b < 0x80 := by
  rw [UInt8.lt_iff_toNat_lt]
  exact not_lt.2 h

theorem not_between {a b c : UInt8} (h : c.toNat < b.toNat) :
    ¬ (decide (a ≤ b) && decide (b ≤ c)) = true := by
  intro hbetween
  exact absurd (between_iff.1 hbetween).2 (not_le.2 h)

theorem first_two {b₀ b₁ : UInt8} (h : 0xC2 ≤ b₀.toNat ∧ b₀.toNat ≤ 0xDF)
    (h₁ : 0x80 ≤ b₁.toNat ∧ b₁.toNat ≤ 0xBF) (s : List UInt8) :
    first b₀ (b₁ :: s) =
      (some (Char.ofNat (b₀.toNat % 32 * 64 + b₁.toNat % 64)), 1) := by
  have htwo : (decide (0xC2 ≤ b₀) && decide (b₀ ≤ 0xDF)) = true := between_iff.2 h
  unfold first
  rw [if_neg (not_ascii (le_trans (by decide) h.1)), if_pos htwo]
  simp only [isCont_iff.2 h₁, contBits, if_true, pow_zero, mul_one]

theorem first_three {b₀ b₁ b₂ : UInt8} (h : 0xE0 ≤ b₀.toNat ∧ b₀.toNat ≤ 0xEF)
    (h₁ : isSecondOfThree b₀ b₁ = true) (h₂ : 0x80 ≤ b₂.toNat ∧ b₂.toNat ≤ 0xBF)
    (s : List UInt8) : first b₀ (b₁ :: b₂ :: s) =
      (some (Char.ofNat (b₀.toNat % 16 * 64 ^ 2 + b₁.toNat % 64 * 64 + b₂.toNat % 64)), 2) := by
  have hthree : (decide (0xE0 ≤ b₀) && decide (b₀ ≤ 0xEF)) = true := between_iff.2 h
  unfold first
  rw [if_neg (not_ascii (le_trans (by decide) h.1)),
    if_neg (not_between (lt_of_lt_of_le (by decide) h.1)), if_pos hthree]
  simp [h₁, isCont_iff.2 h₂, contBits]

theorem first_four {b₀ b₁ b₂ b₃ : UInt8} (h : 0xF0 ≤ b₀.toNat ∧ b₀.toNat ≤ 0xF4)
    (h₁ : isSecondOfFour b₀ b₁ = true) (h₂ : 0x80 ≤ b₂.toNat ∧ b₂.toNat ≤ 0xBF)
    (h₃ : 0x80 ≤ b₃.toNat ∧ b₃.toNat ≤ 0xBF) (s : List UInt8) :
    first b₀ (b₁ :: b₂ :: b₃ :: s) =
      (some (Char.ofNat (b₀.toNat % 8 * 64 ^ 3 + b₁.toNat % 64 * 64 ^ 2 + b₂.toNat % 64 * 64 +
        b₃.toNat % 64)), 3) := by
  have hfour : (decide (0xF0 ≤ b₀) && decide (b₀ ≤ 0xF4)) = true := between_iff.2 h
  unfold first
  rw [if_neg (not_ascii (le_trans (by decide) h.1)),
    if_neg (not_between (lt_of_lt_of_le (by decide) h.1)),
    if_neg (not_between (lt_of_lt_of_le (by decide) h.1)), if_pos hfour]
  simp [h₁, isCont_iff.2 h₂, isCont_iff.2 h₃, contBits]

theorem isSecondOfThree_of_bounds {b₀ b₁ : UInt8} (h : 0x80 ≤ b₁.toNat ∧ b₁.toNat ≤ 0xBF)
    (hE0 : b₀.toNat = 0xE0 → 0xA0 ≤ b₁.toNat) (hED : b₀.toNat = 0xED → b₁.toNat ≤ 0x9F) :
    isSecondOfThree b₀ b₁ = true := by
  unfold isSecondOfThree
  split_ifs with h0 hD
  · exact between_iff.2 ⟨hE0 (by rw [h0]; rfl), h.2⟩
  · exact between_iff.2 ⟨h.1, hED (by rw [hD]; rfl)⟩
  · exact isCont_iff.2 h

theorem isSecondOfFour_of_bounds {b₀ b₁ : UInt8} (h : 0x80 ≤ b₁.toNat ∧ b₁.toNat ≤ 0xBF)
    (hF0 : b₀.toNat = 0xF0 → 0x90 ≤ b₁.toNat) (hF4 : b₀.toNat = 0xF4 → b₁.toNat ≤ 0x8F) :
    isSecondOfFour b₀ b₁ = true := by
  unfold isSecondOfFour
  split_ifs with h0 h4
  · exact between_iff.2 ⟨hF0 (by rw [h0]; rfl), h.2⟩
  · exact between_iff.2 ⟨h.1, hF4 (by rw [h4]; rfl)⟩
  · exact isCont_iff.2 h

/-- The bytes of a character are decoded to it. -/
theorem first_encodeChar (c : Char) (s : List UInt8) :
    ∃ b rest, String.utf8EncodeChar c = b :: rest ∧ first b (rest ++ s) = (some c, rest.length) := by
  have hvalid : c.toNat < 0xD800 ∨ 0xDFFF < c.toNat ∧ c.toNat < 0x110000 := c.valid
  have hval : c.val.toNat = c.toNat := rfl
  have hc := Char.ofNat_toNat c
  unfold String.utf8EncodeChar
  rw [hval]
  generalize c.toNat = n at hvalid hc
  rw [← hc]
  dsimp only
  split_ifs with h1 h2 h3
  · refine ⟨_, _, rfl, ?_⟩
    have hb : UInt8.ofNat n < 0x80 := by
      rw [UInt8.lt_iff_toNat_lt, UInt8.toNat_ofNat']
      exact lt_of_le_of_lt (Nat.mod_le _ _) (Nat.lt_succ_of_le h1)
    refine (if_pos hb).trans ?_
    rw [UInt8.toNat_ofNat', Nat.mod_eq_of_lt (by omega)]
    rfl
  · refine ⟨_, _, rfl, ?_⟩
    rw [List.singleton_append, first_two]
    · simp only [UInt8.toNat_ofNat', List.length_singleton]
      congr 3
      omega
    · simp only [UInt8.toNat_ofNat']
      omega
    · simp only [UInt8.toNat_ofNat']
      omega
  · refine ⟨_, _, rfl, ?_⟩
    rw [List.cons_append, List.singleton_append, first_three]
    · simp only [UInt8.toNat_ofNat', List.length_cons, List.length_nil]
      congr 3
      omega
    · simp only [UInt8.toNat_ofNat']
      omega
    · apply isSecondOfThree_of_bounds <;> simp only [UInt8.toNat_ofNat'] <;> omega
    · simp only [UInt8.toNat_ofNat']
      omega
  · refine ⟨_, _, rfl, ?_⟩
    rw [List.cons_append, List.cons_append, List.singleton_append, first_four]
    · simp only [UInt8.toNat_ofNat', List.length_cons, List.length_nil]
      congr 3
      omega
    · simp only [UInt8.toNat_ofNat']
      omega
    · apply isSecondOfFour_of_bounds <;> simp only [UInt8.toNat_ofNat'] <;> omega
    · simp only [UInt8.toNat_ofNat']
      omega
    · simp only [UInt8.toNat_ofNat']
      omega

/-- The bytes of a character tell where they end. -/
theorem encodeChar_append_inj {c d : Char} {s t : List UInt8}
    (h : String.utf8EncodeChar c ++ s = String.utf8EncodeChar d ++ t) : c = d ∧ s = t := by
  obtain ⟨b, rest, hc, hfirst⟩ := first_encodeChar c s
  obtain ⟨b', rest', hd, hfirst'⟩ := first_encodeChar d t
  rw [hc, hd, List.cons_append, List.cons_append] at h
  obtain ⟨rfl, hrest⟩ := List.cons_eq_cons.1 h
  rw [hrest] at hfirst
  obtain ⟨hchar, -⟩ := Prod.mk.inj (hfirst.symm.trans hfirst')
  obtain rfl := Option.some.inj hchar
  obtain ⟨-, rfl⟩ := List.cons_eq_cons.1 (hc.symm.trans hd)
  exact ⟨rfl, List.append_cancel_left hrest⟩

theorem decodeFrom_length_append (s t : List UInt8) :
    decodeFrom s.length (s ++ t) = decodeFrom 0 t := by
  induction s with
  | nil => rfl
  | cons b s ih => exact ih

theorem decode_encode (cs : List Char) :
    decode (cs.flatMap String.utf8EncodeChar) = cs.map some := by
  induction cs with
  | nil => rfl
  | cons c cs ih =>
      obtain ⟨b, rest, henc, hfirst⟩ := first_encodeChar c (cs.flatMap String.utf8EncodeChar)
      rw [List.flatMap_cons, henc, decode, List.cons_append, decodeFrom, hfirst, List.map_cons,
        decodeFrom_length_append]
      exact congrArg (some c :: ·) ih

/-- Text is decoded as it was written. -/
theorem lossy_encode (cs : List Char) :
    lossy (cs.flatMap String.utf8EncodeChar) = String.ofList cs := by
  rw [lossy, decode_encode, List.map_map]
  congr 1
  exact List.map_id cs

/-- An ASCII character is decoded only from its own byte. -/
theorem mem_of_some_mem_decodeFrom {skip : ℕ} {s : List UInt8} {c : Char} (hc : c.toNat < 0x80)
    (h : some c ∈ decodeFrom skip s) : asciiByte c ∈ s := by
  induction s generalizing skip with
  | nil => simp [decodeFrom] at h
  | cons b s ih =>
      cases skip with
      | succ skip => exact List.mem_cons_of_mem b (ih h)
      | zero =>
          obtain hfirst | hrest := List.mem_cons.1 h
          · by_cases hb : b < 0x80
            · have hchar : (first b s).1 = some (Char.ofNat b.toNat) := congrArg Prod.fst (if_pos hb)
              obtain rfl := Option.some.inj (hfirst.trans hchar)
              rw [(ofNat_ascii hb).2]
              exact List.mem_cons_self
            · exact absurd (first_not_ascii hb hfirst.symm) (not_le.2 hc)
          · exact List.mem_cons_of_mem b (ih hrest)

/-- Lossy decoding brings in no ASCII byte. -/
theorem mem_of_mem_encode_lossy {s : List UInt8} {b : UInt8} (hb : b.toNat < 0x80)
    (h : b ∈ (lossy s).toList.flatMap String.utf8EncodeChar) : b ∈ s := by
  obtain ⟨c, hc, heq⟩ := (mem_encode_ascii hb).1 h
  rw [lossy, String.toList_ofList] at hc
  obtain ⟨x, hx, rfl⟩ := List.mem_map.1 hc
  cases x with
  | none =>
      have hrep : ((none : Option Char).getD (Char.ofNat 0xFFFD)).toNat = 0xFFFD := by decide
      omega
  | some c =>
      have hmem := mem_of_some_mem_decodeFrom (heq.trans_lt hb) hx
      rwa [asciiByte, heq, UInt8.ofNat_toNat] at hmem

end Utf8
