import Semantik.HttpDateDays

/-!
# The order of dates and of their Unix seconds

`imfToUnix` checks each of its fields on its own. On the tuples that name a date it keeps the order,
since its day count grows from each date to the next. It also accepts days after the end of a month.
-/

namespace Semantik

open Calendar

@[ext]
structure ImfTuple where
  year : ℤ
  month : ℕ
  day : ℕ
  hour : ℕ
  minute : ℕ
  second : ℕ
deriving DecidableEq

namespace ImfTuple

def key (t : ImfTuple) : ℤ ×ₗ ℕ ×ₗ ℕ ×ₗ ℕ ×ₗ ℕ ×ₗ ℕ :=
  toLex (t.year, toLex (t.month, toLex (t.day, toLex (t.hour, toLex (t.minute, t.second)))))

/-- The lexicographic order. -/
instance : LT ImfTuple := ⟨fun a b => a.key < b.key⟩

theorem lt_iff {a b : ImfTuple} : a < b ↔ a.year < b.year ∨ a.year = b.year ∧
    (a.month < b.month ∨ a.month = b.month ∧ (a.day < b.day ∨ a.day = b.day ∧
      (a.hour < b.hour ∨ a.hour = b.hour ∧ (a.minute < b.minute ∨ a.minute = b.minute ∧
        a.second < b.second)))) := by
  change a.key < b.key ↔ _
  simp only [key, Prod.Lex.toLex_lt_toLex]

def unix (t : ImfTuple) : Option ℕ :=
  imfToUnix t.year t.month t.day t.hour t.minute t.second

def InRange (t : ImfTuple) : Prop := ImfRange t.year t.month t.day t.hour t.minute t.second

/-- The tuple names a second of the calendar between 1970 and 9999. -/
structure Exists (t : ImfTuple) : Prop where
  year : 1970 ≤ t.year ∧ t.year ≤ 9999
  month : 1 ≤ t.month ∧ t.month ≤ 12
  day : 1 ≤ t.day ∧ t.day ≤ daysInMonth t.year.toNat t.month
  hour : t.hour < 24
  minute : t.minute < 60
  second : t.second < 60

/-- Every field is in its range, but the month is shorter. -/
def Phantom (t : ImfTuple) : Prop := t.InRange ∧ daysInMonth t.year.toNat t.month < t.day

/-- The accepted ones of two tuples exist, and their seconds are in the order of the tuples. -/
structure KeepsOrder (a b : ImfTuple) : Prop where
  exists_left : a.unix.isSome → a.Exists
  exists_right : b.unix.isSome → b.Exists
  lt : ∀ m n, a.unix = some m → b.unix = some n → a < b → m < n
  inj : ∀ m n, a.unix = some m → b.unix = some n → m = n → a = b

theorem isSome_unix_iff {t : ImfTuple} : t.unix.isSome ↔ t.InRange := by
  by_cases h : t.InRange
  · rw [unix, imfToUnix_eq_some h]
    exact iff_of_true rfl h
  · rw [unix, imfToUnix_eq_none h]
    exact iff_of_false (by decide) h

theorem Exists.inRange {t : ImfTuple} (h : t.Exists) : t.InRange :=
  ⟨h.year, h.month, ⟨h.day.1, h.day.2.trans (daysInMonth_le _ _)⟩, h.hour, h.minute, h.second⟩

/-- A tuple is accepted and does not exist exactly if it is phantom. -/
theorem exists_iff_not_phantom {t : ImfTuple} :
    (t.unix.isSome → t.Exists) ↔ ¬ t.Phantom := by
  rw [isSome_unix_iff]
  constructor
  · rintro h ⟨hrange, hday⟩
    exact absurd (h hrange).day.2 (not_le.2 hday)
  · intro h hrange
    have hday := not_lt.1 (fun hlt => h ⟨hrange, hlt⟩)
    exact ⟨hrange.year, hrange.month, ⟨hrange.day.1, hday⟩, hrange.hour, hrange.minute,
      hrange.second⟩

def Exists.date {t : ImfTuple} (h : t.Exists) : Date :=
  ⟨t.year.toNat, t.month, t.day, h.month.1, h.month.2, h.day.1, h.day.2⟩

def secondOfDay (t : ImfTuple) : ℕ := t.hour * 3600 + t.minute * 60 + t.second

theorem Exists.unix_eq {t : ImfTuple} (h : t.Exists) :
    ∃ n : ℕ, (n : ℤ) = dayCount h.date ∧ t.unix = some (n * 86400 + t.secondOfDay) := by
  have hcast : ((t.year.toNat : ℕ) : ℤ) = t.year := by
    have := h.year
    omega
  have hcount : dayCount h.date = civilDay t.year t.month t.day := by
    change civilDay (t.year.toNat : ℕ) t.month t.day = _
    rw [hcast]
  refine ⟨(civilDay t.year t.month t.day).toNat, ?_, ?_⟩
  · rw [hcount, Int.toNat_of_nonneg h.inRange.civilDay_nonneg]
  · rw [unix, imfToUnix_eq_some h.inRange, secondOfDay, Nat.add_assoc, Nat.add_assoc, Nat.add_assoc]

theorem Exists.secondOfDay_lt {t : ImfTuple} (h : t.Exists) : t.secondOfDay < 86400 := by
  have := h.hour
  have := h.minute
  have := h.second
  unfold secondOfDay
  omega

theorem Exists.date_lt_iff {a b : ImfTuple} (ha : a.Exists) (hb : b.Exists) :
    ha.date < hb.date ↔ a.year < b.year ∨ a.year = b.year ∧
      (a.month < b.month ∨ a.month = b.month ∧ a.day < b.day) := by
  have := ha.year
  have := hb.year
  rw [Date.lt_iff]
  change a.year.toNat < b.year.toNat ∨ a.year.toNat = b.year.toNat ∧ _ ↔ _
  have hlt : a.year.toNat < b.year.toNat ↔ a.year < b.year := by omega
  have heq : a.year.toNat = b.year.toNat ↔ a.year = b.year := by omega
  rw [hlt, heq]
  exact Iff.rfl

theorem Exists.date_eq_iff {a b : ImfTuple} (ha : a.Exists) (hb : b.Exists) :
    ha.date = hb.date ↔ a.year = b.year ∧ a.month = b.month ∧ a.day = b.day := by
  have := ha.year
  have := hb.year
  rw [Date.ext_iff]
  change a.year.toNat = b.year.toNat ∧ _ ↔ _
  have heq : a.year.toNat = b.year.toNat ↔ a.year = b.year := by omega
  rw [heq]
  exact Iff.rfl

theorem Exists.secondOfDay_lt_iff {a b : ImfTuple} (ha : a.Exists) (hb : b.Exists) :
    a.secondOfDay < b.secondOfDay ↔ a.hour < b.hour ∨ a.hour = b.hour ∧
      (a.minute < b.minute ∨ a.minute = b.minute ∧ a.second < b.second) := by
  have := ha.minute
  have := ha.second
  have := hb.minute
  have := hb.second
  unfold secondOfDay
  omega

/-- A tuple comes before another if its date does, or on the same date its second of the day. -/
theorem Exists.lt_iff {a b : ImfTuple} (ha : a.Exists) (hb : b.Exists) :
    a < b ↔ ha.date < hb.date ∨ ha.date = hb.date ∧ a.secondOfDay < b.secondOfDay := by
  rw [ImfTuple.lt_iff, ha.date_lt_iff hb, ha.date_eq_iff hb, ha.secondOfDay_lt_iff hb]
  tauto

/-- Tuples with the same date and second of the day are the same. -/
theorem Exists.eq_of {a b : ImfTuple} (ha : a.Exists) (hb : b.Exists) (hdate : ha.date = hb.date)
    (hsecond : a.secondOfDay = b.secondOfDay) : a = b := by
  obtain ⟨hyear, hmonth, hday⟩ := (ha.date_eq_iff hb).1 hdate
  have := ha.minute
  have := ha.second
  have := hb.minute
  have := hb.second
  unfold secondOfDay at hsecond
  exact ImfTuple.ext hyear hmonth hday (by omega) (by omega) (by omega)

/-- The seconds of tuples that exist are in the order of the tuples. -/
theorem Exists.unix_order {a b : ImfTuple} (ha : a.Exists) (hb : b.Exists) {m n : ℕ}
    (hm : a.unix = some m) (hn : b.unix = some n) : (a < b → m < n) ∧ (m = n → a = b) := by
  obtain ⟨i, hi, hunix⟩ := ha.unix_eq
  obtain ⟨j, hj, hunix'⟩ := hb.unix_eq
  obtain rfl := Option.some.inj (hm.symm.trans hunix)
  obtain rfl := Option.some.inj (hn.symm.trans hunix')
  have hmono : StrictMono dayCount := fun _ _ hdate => Date.count_lt dayCount_next hdate
  have hlt := ha.secondOfDay_lt
  have hlt' := hb.secondOfDay_lt
  constructor
  · intro hab
    rcases (ha.lt_iff hb).1 hab with hdate | ⟨hdate, hsecond⟩
    · have hcount := hmono hdate
      omega
    · rw [hdate] at hi
      omega
  · intro heq
    have hij : i = j := by omega
    have hdate := hmono.injective (hi.symm.trans ((congrArg Nat.cast hij).trans hj))
    exact ha.eq_of hb hdate (by omega)

/-- Two tuples are accepted only if they exist, and keep their order, exactly if neither names a day
after the end of its month. -/
theorem keepsOrder_iff (a b : ImfTuple) : KeepsOrder a b ↔ ¬ a.Phantom ∧ ¬ b.Phantom := by
  rw [← exists_iff_not_phantom, ← exists_iff_not_phantom]
  constructor
  · intro h
    exact ⟨h.exists_left, h.exists_right⟩
  · rintro ⟨ha, hb⟩
    have horder : ∀ m n, a.unix = some m → b.unix = some n → (a < b → m < n) ∧ (m = n → a = b) := by
      intro m n hm hn
      exact (ha (Option.isSome_of_eq_some hm)).unix_order (hb (Option.isSome_of_eq_some hn)) hm hn
    exact ⟨ha, hb, fun m n hm hn => (horder m n hm hn).1, fun m n hm hn => (horder m n hm hn).2⟩

def february31 : ImfTuple := ⟨2023, 2, 31, 0, 0, 0⟩

def march1 : ImfTuple := ⟨2023, 3, 1, 0, 0, 0⟩

/-- A day that does not exist is accepted, and comes after the day that follows it. -/
theorem not_keepsOrder_february31 : ¬ KeepsOrder february31 march1 ∧ february31 < march1 ∧
    ∃ m n, february31.unix = some m ∧ march1.unix = some n ∧ n < m := by
  refine ⟨?_, lt_iff.2 (by decide), 1677801600, 1677628800, by decide, by decide, by decide⟩
  intro h
  have hexists := h.exists_left (by decide)
  exact absurd hexists.day.2 (by decide)

end ImfTuple

end Semantik
