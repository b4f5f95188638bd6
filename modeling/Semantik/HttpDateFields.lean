import Semantik.HttpDateOrder
import Semantik.RustParse

/-!
# What the date parser reads

`httpdateParse` looks at the last four bytes and at seven fields by their positions from the start.
Here is what each field may hold, and so which strings it accepts.
-/

namespace Semantik

open Utf8

def monthNames : List String :=
  ["Jan", "Feb", "Mar", "Apr", "May", "Jun", "Jul", "Aug", "Sep", "Oct", "Nov", "Dec"]

def field (s : List UInt8) (i j : ℕ) : List UInt8 := (s.take j).drop i

def NumberField (f : List UInt8) (v : ℕ) : Prop := ∃ cs, f = cs.map asciiByte ∧ Unsigned cs v

/-- A number as in `NumberField`, with ASCII white space around. -/
def DayField (f : List UInt8) (v : ℕ) : Prop := ∃ before cs after,
  f = (before ++ cs ++ after).map asciiByte ∧ Unsigned cs v ∧
    ∀ c ∈ before ++ after, isWhitespace c = true ∧ c.toNat < 0x80

/-- What the parser reads as this tuple. -/
structure Fields (s : List UInt8) (t : ImfTuple) : Prop where
  length : 29 ≤ s.length
  gmt : s.drop (s.length - 4) = asBytes " GMT"
  day : DayField (field s 5 7) t.day
  month : ∃ i name, monthNames[i]? = some name ∧ field s 8 11 = asBytes name ∧ t.month = i + 1
  year : ∃ v : ℕ, t.year = v ∧ NumberField (field s 12 16) v
  hour : NumberField (field s 17 19) t.hour
  minute : NumberField (field s 20 22) t.minute
  second : NumberField (field s 23 25) t.second

theorem slice_eq_field (s : List UInt8) (i j : ℕ) (h : i ≤ j ∧ j ≤ s.length) :
    slice s i j h = field s i j := rfl

theorem ascii_of_unsigned {cs : List Char} {v : ℕ} (h : Unsigned cs v) : ∀ c ∈ cs, c.toNat < 0x80 := by
  obtain ⟨ds, hnumber, -, hcs⟩ := h
  have hds : ∀ c ∈ ds, c.toNat < 0x80 := by
    intro c hc
    have := toNat_of_isDigit (hnumber.digits c hc)
    omega
  rcases hcs with rfl | rfl
  · exact hds
  · rw [List.forall_mem_cons]
    exact ⟨by decide, hds⟩

/-- A number in a field of a few bytes is small. -/
theorem unsigned_lt {cs : List Char} {v : ℕ} (h : Unsigned cs v) : v < 10 ^ cs.length := by
  obtain ⟨ds, hnumber, rfl, rfl | rfl⟩ := h
  · exact digitsValue_lt hnumber.digits
  · exact (digitsValue_lt hnumber.digits).trans_le (Nat.pow_le_pow_right (by decide) (by simp))

theorem numberField_iff_strict {f : List UInt8} {v : ℕ} :
    NumberField f v ↔ ∃ cs, strict f = some cs ∧ Unsigned cs v := by
  constructor
  · rintro ⟨cs, rfl, hcs⟩
    exact ⟨cs, strict_map_asciiByte (ascii_of_unsigned hcs), hcs⟩
  · rintro ⟨cs, hstrict, hcs⟩
    exact ⟨cs, eq_map_asciiByte hstrict (ascii_of_unsigned hcs), hcs⟩

/-- A field of at most four bytes holds no number that is too large for the parsers. -/
theorem NumberField.lt {f : List UInt8} {v : ℕ} (h : NumberField f v) (hf : f.length ≤ 4) :
    v < 10 ^ 4 := by
  obtain ⟨cs, rfl, hcs⟩ := h
  rw [List.length_map] at hf
  exact (unsigned_lt hcs).trans_le (Nat.pow_le_pow_right (by decide) hf)

theorem parseU32_field {f : List UInt8} {v : ℕ} (hf : f.length ≤ 4) :
    (strict f).bind parseU32 = some v ↔ NumberField f v := by
  rw [Option.bind_eq_some_iff]
  simp only [parseU32, parseUnsigned_eq_some_iff, ← and_assoc, exists_and_right,
    ← numberField_iff_strict]
  apply and_iff_left_of_imp
  intro h
  have := h.lt hf
  omega

theorem parseI32_field {f : List UInt8} {v : ℕ} (hf : f.length ≤ 4) (hv : 0 < v) :
    (strict f).bind parseI32 = some (v : ℤ) ↔ NumberField f v := by
  rw [Option.bind_eq_some_iff]
  simp only [parseI32, parseSigned_eq_some_iff hv, ← and_assoc, exists_and_right,
    ← numberField_iff_strict]
  apply and_iff_left_of_imp
  intro h
  have := h.lt hf
  omega

theorem not_isWhitespace_of_unsigned {cs : List Char} {v : ℕ} (h : Unsigned cs v) :
    cs ≠ [] ∧ ∀ c ∈ cs, isWhitespace c = false := by
  obtain ⟨ds, hnumber, -, hcs⟩ := h
  have hds : ∀ c ∈ ds, isWhitespace c = false :=
    fun c hc => not_isWhitespace_of_isDigit (hnumber.digits c hc)
  rcases hcs with rfl | rfl
  · exact ⟨hnumber.ne_nil, hds⟩
  · rw [List.forall_mem_cons]
    exact ⟨List.cons_ne_nil _ _, by decide, hds⟩

/-- White space above ASCII takes two bytes at least and leaves none for a number. -/
theorem ascii_of_trim {f : List UInt8} {cs : List Char} {v : ℕ} (hf : f.length = 2)
    (hstrict : strict f = some cs) (hnumber : Unsigned (trim cs) v) : ∀ c ∈ cs, c.toNat < 0x80 := by
  obtain ⟨before, after, heq, -, -⟩ := exists_trim cs
  obtain ⟨hle, hfull⟩ := length_le_of_strict hstrict
  by_cases hlen : cs.length = f.length
  · exact hfull hlen
  · have hpos := List.length_pos_of_ne_nil (not_isWhitespace_of_unsigned hnumber).1
    have hsum := congrArg List.length heq
    rw [List.length_append, List.length_append] at hsum
    obtain rfl : before = [] := List.length_eq_zero_iff.1 (by omega)
    obtain rfl : after = [] := List.length_eq_zero_iff.1 (by omega)
    rw [List.nil_append, List.append_nil] at heq
    rw [heq]
    exact ascii_of_unsigned hnumber

/-- Two bytes that are trimmed before they are parsed. -/
theorem parseU32_dayField {f : List UInt8} {v : ℕ} (hf : f.length = 2) :
    ((strict f).bind fun cs => parseU32 (trim cs)) = some v ↔ DayField f v := by
  simp only [Option.bind_eq_some_iff, parseU32, parseUnsigned_eq_some_iff]
  constructor
  · rintro ⟨cs, hstrict, hnumber, -⟩
    obtain ⟨before, after, heq, hbefore, hafter⟩ := exists_trim cs
    have hascii := ascii_of_trim hf hstrict hnumber
    refine ⟨before, trim cs, after, ?_, hnumber, ?_⟩
    · rw [← heq]
      exact eq_map_asciiByte hstrict hascii
    · intro c hc
      rw [heq] at hascii
      rcases List.mem_append.1 hc with hc | hc
      · exact ⟨hbefore c hc, hascii c (by simp [hc])⟩
      · exact ⟨hafter c hc, hascii c (by simp [hc])⟩
  · rintro ⟨before, cs, after, rfl, hnumber, hblank⟩
    obtain ⟨hne, hplain⟩ := not_isWhitespace_of_unsigned hnumber
    have hascii : ∀ c ∈ before ++ cs ++ after, c.toNat < 0x80 := by
      intro c hc
      rw [List.mem_append, List.mem_append] at hc
      rcases hc with (hc | hc) | hc
      · exact (hblank c (List.mem_append_left _ hc)).2
      · exact ascii_of_unsigned hnumber c hc
      · exact (hblank c (List.mem_append_right _ hc)).2
    refine ⟨_, strict_map_asciiByte hascii, ?_⟩
    rw [trim_append before after (fun c hc => (hblank c (List.mem_append_left _ hc)).1)
      (fun c hc => (hblank c (List.mem_append_right _ hc)).1)
      (fun c hc => hplain c (List.mem_of_head? hc)) (fun c hc => hplain c (List.mem_of_getLast? hc))
      hne]
    refine ⟨hnumber, ?_⟩
    have hlt := unsigned_lt hnumber
    rw [List.length_map, List.length_append, List.length_append] at hf
    have hpow : 10 ^ cs.length ≤ 10 ^ 2 := Nat.pow_le_pow_right (by decide) (by omega)
    omega

theorem eq_or_of_ite_eq_some {α : Type} {p : Prop} [Decidable p] {a b : α} {x : Option α}
    (h : (if p then some a else x) = some b) : (p ∧ b = a) ∨ x = some b := by
  by_cases hp : p
  · rw [if_pos hp] at h
    exact .inl ⟨hp, (Option.some.inj h).symm⟩
  · rw [if_neg hp] at h
    exact .inr h

theorem imfMonth_eq_some_iff {f : List UInt8} {m : ℕ} : imfMonth f = some m ↔
    ∃ i name, monthNames[i]? = some name ∧ f = asBytes name ∧ m = i + 1 := by
  constructor
  · intro h
    unfold imfMonth at h
    iterate 12
      rcases eq_or_of_ite_eq_some h with ⟨hf, hm⟩ | h
      · refine ⟨_, _, ?_, hf, hm⟩
        rfl
    cases h
  · rintro ⟨i, name, hname, rfl, rfl⟩
    have hi : i < 12 := (List.getElem?_eq_some_iff.1 hname).1
    interval_cases i <;> cases hname <;> rfl

theorem length_field {s : List UInt8} {i j : ℕ} (h : j ≤ s.length) :
    (field s i j).length = j - i := by
  rw [field, List.length_drop, List.length_take, min_eq_left h]

/-- The strings that the parser accepts, and what it makes of them. -/
theorem httpdateParse_eq_some_iff {s : List UInt8} {time : SystemTime} :
    httpdateParse s = some time ↔
      ∃ t n, Fields s t ∧ t.unix = some n ∧ time = (Duration.fromSecs n : ℤ) := by
  have hsuffix : field s (s.length - 4) s.length = s.drop (s.length - 4) := by
    rw [field, List.take_length]
  unfold httpdateParse
  split_ifs with hlen hgmt
  · apply iff_of_false (by simp)
    rintro ⟨t, n, hfields, -⟩
    exact absurd hfields.length (not_le.2 hlen)
  · apply iff_of_false (by simp)
    rintro ⟨t, n, hfields, -⟩
    rw [slice_eq_field, hsuffix] at hgmt
    exact hgmt hfields.gmt
  · rw [slice_eq_field, hsuffix, not_not] at hgmt
    rw [not_lt] at hlen
    have hlength : ∀ i j, j ≤ 25 → (field s i j).length = j - i :=
      fun i j hj => length_field (by omega)
    have hday := fun v => parseU32_dayField (v := v) (hlength 5 7 (by decide))
    have hnumber := fun i j v hj hij => parseU32_field (v := v) ((hlength i j hj).trans_le hij)
    have hyear := fun v => parseI32_field (v := v) ((hlength 12 16 (by decide)).trans_le le_rfl)
    simp only [Option.bind_eq_some_iff] at hday hnumber hyear
    simp only [slice_eq_field, Option.bind_eq_bind, Option.bind_eq_some_iff]
    constructor
    · rintro ⟨ds, hds, day, hday', month, hmonth, ys, hys, year, hyear', hs, hhs, hour, hhour',
        ms, hms, minute, hminute', ss, hss, second, hsecond', n, hn, htime⟩
      have hrange := ImfTuple.isSome_unix_iff (t := ⟨year, month, day, hour, minute, second⟩).1
        (Option.isSome_of_eq_some hn)
      have hpos : 1970 ≤ year := hrange.year.1
      obtain ⟨v, rfl⟩ := Int.eq_ofNat_of_zero_le (by omega : 0 ≤ year)
      refine ⟨⟨v, month, day, hour, minute, second⟩, n, ?_, hn, (Option.some.inj htime).symm⟩
      exact
        { length := hlen
          gmt := hgmt
          day := (hday _).1 ⟨ds, hds, hday'⟩
          month := imfMonth_eq_some_iff.1 hmonth
          year := ⟨v, rfl, (hyear v (by omega)).1 ⟨ys, hys, hyear'⟩⟩
          hour := (hnumber 17 19 _ (by decide) (by decide)).1 ⟨hs, hhs, hhour'⟩
          minute := (hnumber 20 22 _ (by decide) (by decide)).1 ⟨ms, hms, hminute'⟩
          second := (hnumber 23 25 _ (by decide) (by decide)).1 ⟨ss, hss, hsecond'⟩ }
    · rintro ⟨t, n, hfields, hn, rfl⟩
      have hrange := ImfTuple.isSome_unix_iff.1 (Option.isSome_of_eq_some hn)
      have hpos := hrange.year.1
      obtain ⟨v, hv, hvfield⟩ := hfields.year
      obtain ⟨ds, hds, hday'⟩ := (hday _).2 hfields.day
      obtain ⟨ys, hys, hyear'⟩ := (hyear v (by omega)).2 hvfield
      obtain ⟨hs, hhs, hhour'⟩ := (hnumber 17 19 _ (by decide) (by decide)).2 hfields.hour
      obtain ⟨ms, hms, hminute'⟩ := (hnumber 20 22 _ (by decide) (by decide)).2 hfields.minute
      obtain ⟨ss, hss, hsecond'⟩ := (hnumber 23 25 _ (by decide) (by decide)).2 hfields.second
      rw [← hv] at hyear'
      exact ⟨ds, hds, t.day, hday', t.month, imfMonth_eq_some_iff.2 hfields.month, ys, hys, t.year,
        hyear', hs, hhs, t.hour, hhour', ms, hms, t.minute, hminute', ss, hss, t.second, hsecond', n,
        hn, rfl⟩

end Semantik
