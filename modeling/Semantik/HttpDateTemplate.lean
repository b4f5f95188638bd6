import Semantik.HttpDateFields

/-!
# The template of an HTTP date

A date has 29 characters: the day and month by name, the numbers zero-padded. The parser does not
compare its input with the template, so it accepts more. It never reads outside the input.
-/

namespace Semantik

open Utf8

def dayNames : List String := ["Sun", "Mon", "Tue", "Wed", "Thu", "Fri", "Sat"]

def templateChars (weekday day month year hour minute second : List Char) : List Char :=
  weekday ++ [',', ' '] ++ day ++ [' '] ++ month ++ [' '] ++ year ++ [' '] ++ hour ++ [':'] ++
    minute ++ [':'] ++ second ++ [' ', 'G', 'M', 'T']

def IsDigits (n : ℕ) (ds : List Char) : Prop := ds.length = n ∧ ∀ c ∈ ds, c.isDigit = true

/-- The string is an IMF-fixdate, but for the ranges of its numbers. -/
def Template (s : String) : Prop :=
  ∃ weekday ∈ dayNames, ∃ month ∈ monthNames, ∃ day year hour minute second,
    IsDigits 2 day ∧ IsDigits 4 year ∧ IsDigits 2 hour ∧ IsDigits 2 minute ∧ IsDigits 2 second ∧
      s.toList = templateChars weekday.toList day month.toList year hour minute second

/-- The positions that are looked at spell a tuple in range. -/
def Loose (s : List UInt8) : Prop := ∃ t, Fields s t ∧ t.InRange

theorem isSome_httpdateParse_iff {s : List UInt8} : (httpdateParse s).isSome ↔ Loose s := by
  rw [Option.isSome_iff_exists]
  simp only [httpdateParse_eq_some_iff]
  constructor
  · rintro ⟨_, t, n, hfields, hn, -⟩
    exact ⟨t, hfields, ImfTuple.isSome_unix_iff.1 (Option.isSome_of_eq_some hn)⟩
  · rintro ⟨t, hfields, hrange⟩
    obtain ⟨n, hn⟩ := Option.isSome_iff_exists.1 (ImfTuple.isSome_unix_iff.2 hrange)
    exact ⟨_, t, n, hfields, hn, rfl⟩

/-- `s[i..j]`, `none` where it panics. -/
def getRange (s : List UInt8) (i j : ℕ) : Option (List UInt8) :=
  if i ≤ j ∧ j ≤ s.length then some (field s i j) else none

/-- `x?` before the rest of a function whose outer `none` is a panic. -/
def question {α β : Type} (x : Option α) (rest : α → Option (Option β)) : Option (Option β) :=
  match x with
  | none => some none
  | some a => rest a

/-- `httpdateParse` with every slice and every integer operation checked. -/
def httpdateParseChecked (s : List UInt8) : Option (Option SystemTime) :=
  if s.length < 29 then some none
  else do
    let suffix ← getRange s (← checkedSub s.length 4) s.length
    if suffix ≠ asBytes " GMT" then some none
    else do
      let f ← getRange s 5 7
      question (strict f) fun cs => question (parseU32 (trim cs)) fun day => do
      let f ← getRange s 8 11
      question (imfMonth f) fun mon => do
      let f ← getRange s 12 16
      question (strict f) fun cs => question (parseI32 cs) fun year => do
      let f ← getRange s 17 19
      question (strict f) fun cs => question (parseU32 cs) fun hour => do
      let f ← getRange s 20 22
      question (strict f) fun cs => question (parseU32 cs) fun minute => do
      let f ← getRange s 23 25
      question (strict f) fun cs => question (parseU32 cs) fun second => do
      let unix ← imfToUnixChecked year mon day hour minute second
      question unix fun unix => some (some (Duration.fromSecs unix : ℤ))

theorem getRange_eq {s : List UInt8} {i j : ℕ} (h : i ≤ j ∧ j ≤ s.length) :
    getRange s i j = some (field s i j) := if_pos h

theorem question_eq {α β : Type} {x : Option α} {rest : α → Option (Option β)}
    {f : α → Option β} (h : ∀ a, rest a = some (f a)) : question x rest = some (x.bind f) := by
  cases x with
  | none => rfl
  | some a => exact h a

theorem httpdateParseChecked_eq (s : List UInt8) :
    httpdateParseChecked s = some (httpdateParse s) := by
  unfold httpdateParseChecked httpdateParse
  by_cases hlen : s.length < 29
  · rw [if_pos hlen, dif_pos hlen]
  · have hget : ∀ i j, i ≤ j → j ≤ 25 → getRange s i j = some (field s i j) :=
      fun i j hij hj => getRange_eq ⟨hij, by omega⟩
    rw [if_neg hlen, dif_neg hlen, bind_of_eq (checkedSub_eq (by omega)),
      bind_of_eq (getRange_eq ⟨by omega, le_rfl⟩), slice_eq_field]
    by_cases hgmt : field s (s.length - 4) s.length ≠ asBytes " GMT"
    · rw [if_pos hgmt, if_pos hgmt]
    · rw [if_neg hgmt, if_neg hgmt, bind_of_eq (hget 5 7 (by decide) (by decide))]
      refine question_eq fun cs => question_eq fun day => ?_
      rw [bind_of_eq (hget 8 11 (by decide) (by decide))]
      refine question_eq fun mon => ?_
      rw [bind_of_eq (hget 12 16 (by decide) (by decide))]
      refine question_eq fun cs => question_eq fun year => ?_
      rw [bind_of_eq (hget 17 19 (by decide) (by decide))]
      refine question_eq fun cs => question_eq fun hour => ?_
      rw [bind_of_eq (hget 20 22 (by decide) (by decide))]
      refine question_eq fun cs => question_eq fun minute => ?_
      rw [bind_of_eq (hget 23 25 (by decide) (by decide))]
      refine question_eq fun cs => question_eq fun second => ?_
      rw [bind_of_eq (imfToUnixChecked_eq _ _ _ _ _ _)]
      exact question_eq fun unix => rfl

theorem length_names : ∀ name ∈ dayNames ++ monthNames, name.toList.length = 3 := by
  decide

theorem length_dayName {name : String} (h : name ∈ dayNames) : name.toList.length = 3 :=
  length_names name (List.mem_append_left _ h)

theorem length_monthName {name : String} (h : name ∈ monthNames) : name.toList.length = 3 :=
  length_names name (List.mem_append_right _ h)

/-- The template is one of 29 characters. -/
theorem Template.length_eq {s : String} (h : Template s) : s.length = 29 := by
  obtain ⟨weekday, hweekday, month, hmonth, day, year, hour, minute, second, hday, hyear, hhour,
    hminute, hsecond, hs⟩ := h
  rw [← String.length_toList, hs, templateChars]
  simp only [List.length_append, length_dayName hweekday, length_monthName hmonth, hday.1, hyear.1,
    hhour.1, hminute.1, hsecond.1]
  rfl

/-- Nothing is read outside the string, and only the template is accepted. -/
def TemplateOnly (s : String) : Prop :=
  httpdateParseChecked (asBytes s) = some (httpdateParse (asBytes s)) ∧
    ((httpdateParse (asBytes s)).isSome → Template s)

/-- That is so exactly if the string is of the template, or the positions that are looked at spell no
tuple in range. -/
theorem templateOnly_iff (s : String) : TemplateOnly s ↔ Template s ∨ ¬ Loose (asBytes s) := by
  rw [TemplateOnly, and_iff_right (httpdateParseChecked_eq _), isSome_httpdateParse_iff]
  exact imp_iff_or_not

def oddDate : String := "Xxx, +1 Oct 2026907:28:00 UTC+0 GMT"

/-- It is accepted. -/
theorem not_templateOnly_oddDate : ¬ TemplateOnly oddDate := by
  intro h
  have htemplate := h.2 (by decide)
  exact absurd htemplate.length_eq (by decide)

end Semantik
