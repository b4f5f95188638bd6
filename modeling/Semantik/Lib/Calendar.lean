import Mathlib.Data.Prod.Lex
import Mathlib.Logic.Function.Iterate
import Mathlib.Order.Monotone.Basic
import Mathlib.Tactic.Ring

/-!
# The Gregorian calendar

Dates with the leap rule, the date of the next day, and the date that is so many days after a
given one. Any function that grows by one from each date to the next counts the days, and keeps the
order of the dates.
-/

namespace Calendar

def IsLeap (year : ℕ) : Prop := year % 4 = 0 ∧ (year % 100 ≠ 0 ∨ year % 400 = 0)

instance (year : ℕ) : Decidable (IsLeap year) := by
  unfold IsLeap
  infer_instance

def daysInMonth (year month : ℕ) : ℕ :=
  if month = 2 then (if IsLeap year then 29 else 28)
  else if month = 4 ∨ month = 6 ∨ month = 9 ∨ month = 11 then 30
  else 31

theorem le_daysInMonth (year month : ℕ) : 28 ≤ daysInMonth year month := by
  unfold daysInMonth
  split_ifs <;> omega

theorem daysInMonth_le (year month : ℕ) : daysInMonth year month ≤ 31 := by
  unfold daysInMonth
  split_ifs <;> omega

@[ext]
structure Date where
  year : ℕ
  month : ℕ
  day : ℕ
  month_pos : 1 ≤ month
  month_le : month ≤ 12
  day_pos : 1 ≤ day
  day_le : day ≤ daysInMonth year month
deriving DecidableEq

namespace Date

theorem day_le_31 (d : Date) : d.day ≤ 31 := d.day_le.trans (daysInMonth_le _ _)

def next (d : Date) : Date :=
  if h : d.day < daysInMonth d.year d.month then
    ⟨d.year, d.month, d.day + 1, d.month_pos, d.month_le, by omega, h⟩
  else if h' : d.month < 12 then
    ⟨d.year, d.month + 1, 1, by omega, h', le_rfl, by have := le_daysInMonth d.year (d.month + 1); omega⟩
  else ⟨d.year + 1, 1, 1, le_rfl, by omega, le_rfl, by have := le_daysInMonth (d.year + 1) 1; omega⟩

/-- The next day is in the same month, the first of the next month, or the first of the next year. -/
theorem next_cases (d : Date) :
    (d.day < daysInMonth d.year d.month ∧ d.next.year = d.year ∧ d.next.month = d.month ∧
      d.next.day = d.day + 1) ∨
    (d.day = daysInMonth d.year d.month ∧ d.month < 12 ∧ d.next.year = d.year ∧
      d.next.month = d.month + 1 ∧ d.next.day = 1) ∨
    (d.day = daysInMonth d.year d.month ∧ d.month = 12 ∧ d.next.year = d.year + 1 ∧
      d.next.month = 1 ∧ d.next.day = 1) := by
  have hday := d.day_le
  have hmonth := d.month_le
  unfold next
  split_ifs with h h'
  · exact .inl ⟨h, rfl, rfl, rfl⟩
  · exact .inr (.inl ⟨by omega, h', rfl, rfl, rfl⟩)
  · exact .inr (.inr ⟨by omega, by omega, rfl, rfl, rfl⟩)

def key (d : Date) : ℕ ×ₗ ℕ ×ₗ ℕ := toLex (d.year, toLex (d.month, d.day))

theorem key_injective : Function.Injective key := by
  intro a b h
  have hyear : a.year = b.year := congrArg (fun k => (ofLex k).1) h
  have hmonth : a.month = b.month := congrArg (fun k => (ofLex (ofLex k).2).1) h
  have hday : a.day = b.day := congrArg (fun k => (ofLex (ofLex k).2).2) h
  exact Date.ext hyear hmonth hday

instance : LinearOrder Date := LinearOrder.lift' key key_injective

theorem lt_iff {a b : Date} : a < b ↔ a.year < b.year ∨ a.year = b.year ∧
    (a.month < b.month ∨ a.month = b.month ∧ a.day < b.day) := by
  change a.key < b.key ↔ _
  rw [key, key, Prod.Lex.toLex_lt_toLex, Prod.Lex.toLex_lt_toLex]

theorem lt_next (d : Date) : d < d.next := by
  rw [lt_iff]
  rcases d.next_cases with h | h | h <;> omega

/-- No date lies between a date and the next one. -/
theorem next_le_of_lt {a b : Date} (h : a < b) : a.next ≤ b := by
  rw [← not_lt]
  intro hlt
  rw [lt_iff] at h hlt
  -- no day of a month follows its last one
  have hlast : a.day = daysInMonth a.year a.month → a.year = b.year ∧ a.month = b.month →
      b.day ≤ a.day := by
    rintro hend ⟨hyear, hmonth⟩
    rw [hend, hyear, hmonth]
    exact b.day_le
  have hmonth := b.month_le
  have hpos := b.day_pos
  have hpos' := b.month_pos
  rcases a.next_cases with ⟨-, hy, hm, hd⟩ | ⟨hend, -, hy, hm, hd⟩ | ⟨hend, hdec, hy, hm, hd⟩
  · omega
  · have := hlast hend
    omega
  · have := hlast hend
    omega

def after (d : Date) (n : ℕ) : Date := next^[n] d

@[simp] theorem after_zero (d : Date) : d.after 0 = d := rfl

theorem after_succ (d : Date) (n : ℕ) : d.after (n + 1) = (d.after n).next :=
  Function.iterate_succ_apply' next n d

theorem after_strictMono (d : Date) : StrictMono d.after := by
  apply strictMono_nat_of_lt_succ
  intro n
  rw [after_succ]
  exact lt_next _

/-- A number of the date that grows with it. -/
def index (d : Date) : ℕ := 12 * 31 * d.year + 31 * d.month + d.day

theorem index_lt {a b : Date} (h : a < b) : a.index < b.index := by
  have ha := a.day_le_31
  have hb := b.day_pos
  have ha' := a.month_le
  have hb' := b.month_pos
  rw [lt_iff] at h
  unfold index
  omega

/-- Every later date is so many days after. -/
theorem exists_after {a b : Date} (h : a ≤ b) : ∃ n, a.after n = b := by
  -- the index of `b` bounds the number of steps
  induction hk : b.index - a.index using Nat.strongRecOn generalizing a with
  | ind k ih =>
      rcases h.eq_or_lt with heq | hlt
      · exact ⟨0, heq⟩
      · have hindex := index_lt (lt_next a)
        have hindex' := index_lt hlt
        obtain ⟨n, hn⟩ := ih (b.index - a.next.index) (by omega) (next_le_of_lt hlt) rfl
        refine ⟨n + 1, ?_⟩
        rw [after, Function.iterate_succ_apply]
        exact hn

/-- A function that increases by one every day counts the days. -/
theorem count_after {f : Date → ℤ} (hf : ∀ d, f d.next = f d + 1) (d : Date) (n : ℕ) :
    f (d.after n) = f d + n := by
  induction n with
  | zero => simp
  | succ n ih =>
      rw [after_succ, hf, ih]
      push_cast
      ring

theorem count_lt {f : Date → ℤ} (hf : ∀ d, f d.next = f d + 1) {a b : Date} (h : a < b) :
    f a < f b := by
  obtain ⟨n, rfl⟩ := exists_after h.le
  have hn : n ≠ 0 := by
    rintro rfl
    exact lt_irrefl _ h
  rw [count_after hf]
  omega

end Date

end Calendar
