import Semantik.Http
import Semantik.Lib.Utf8
import Semantik.Limits

/-!
# Retry hints

A failed response may say how long to wait: in its JSON body in milliseconds, or in the
`Retry-After` header as a number of seconds or as a date. A hint of zero, in the past or above one
hour is no hint.
-/

namespace Semantik

/-- Unix seconds of a Gregorian date and time of day, by the days-from-civil algorithm. -/
def imfToUnix (year : ℤ) (month day hour minute second : ℕ) : Option ℕ :=
  if ¬ (1970 ≤ year ∧ year ≤ 9999) ∨ ¬ (1 ≤ month ∧ month ≤ 12) ∨ ¬ (1 ≤ day ∧ day ≤ 31) ∨
      24 ≤ hour ∨ 60 ≤ minute ∨ 60 ≤ second then
    none
  else
    let y := year - if month ≤ 2 then 1 else 0
    let era := (if 0 ≤ y then y else y - 399).tdiv 400
    let yoe := asU64 (y - era * 400)
    let doy := (153 * (if 2 < month then month - 3 else month + 9) + 2) / 5 + day - 1
    let doe := yoe * 365 + yoe / 4 - yoe / 100 + doy
    let daysFrom1970 := era * 146097 + doe - 719468
    if daysFrom1970 < 0 then none
    else some (asU64 daysFrom1970 * 86400 + hour * 3600 + minute * 60 + second)

def imfMonth (s : List UInt8) : Option ℕ :=
  if s = asBytes "Jan" then some 1
  else if s = asBytes "Feb" then some 2
  else if s = asBytes "Mar" then some 3
  else if s = asBytes "Apr" then some 4
  else if s = asBytes "May" then some 5
  else if s = asBytes "Jun" then some 6
  else if s = asBytes "Jul" then some 7
  else if s = asBytes "Aug" then some 8
  else if s = asBytes "Sep" then some 9
  else if s = asBytes "Oct" then some 10
  else if s = asBytes "Nov" then some 11
  else if s = asBytes "Dec" then some 12
  else none

def httpdateParse (s : List UInt8) : Option SystemTime :=
  if h : s.length < 29 then none
  else if slice s (s.length - 4) s.length (by omega) ≠ asBytes " GMT" then none
  else do
    let day ← parseU32 (trim (← Utf8.strict (slice s 5 7 (by omega))))
    let mon ← imfMonth (slice s 8 11 (by omega))
    let year ← parseI32 (← Utf8.strict (slice s 12 16 (by omega)))
    let hour ← parseU32 (← Utf8.strict (slice s 17 19 (by omega)))
    let minute ← parseU32 (← Utf8.strict (slice s 20 22 (by omega)))
    let second ← parseU32 (← Utf8.strict (slice s 23 25 (by omega)))
    let unix ← imfToUnix year mon day hour minute second
    return (Duration.fromSecs unix : ℤ)

/-- `t.duration_since(now)`, which fails if `t` is earlier. -/
def durationSince (t now : SystemTime) : Option Duration :=
  if now ≤ t then some (t - now).toNat else none

/-- The hint of the `Retry-After` header: seconds from now, or an HTTP date. -/
def parseRetryAfterHeader (headers : HeaderMap) (now : SystemTime) : Option Duration := do
  let v := trim (← (← headers "retry-after").toStr).toList
  if v = [] then none
  else
    match parseI64 v with
    | some secs =>
      if secs ≤ 0 then none
      else
        let d := Duration.fromSecs (asU64 secs)
        if maxRetryAfter < d then none else some d
    | none =>
      let parsed ← httpdateParse (asBytes (String.ofList v))
      let d ← durationSince parsed now
      if d = 0 ∨ maxRetryAfter < d then none else some d

def retryAfterFromMs (ms : UInt32) : Option Duration :=
  if ms = 0 then none
  else
    let d := Duration.fromMillis ms.toNat
    if maxRetryAfter < d then none else some d

def InRange (d : Duration) : Prop := 0 < d ∧ d ≤ maxRetryAfter

theorem asU64_of_nonneg {n : ℤ} (h : 0 ≤ n) (hlt : n < 2 ^ 64) : (asU64 n : ℤ) = n := by
  rw [asU64, Int.emod_eq_of_lt h hlt, Int.toNat_of_nonneg h]

theorem parseI64_lt {s : List Char} {n : ℤ} (h : parseI64 s = some n) : n < 2 ^ 63 := by
  unfold parseI64 parseSigned at h
  split at h
  all_goals
    obtain ⟨m, hm, rfl⟩ := Option.map_eq_some_iff.1 h
    have hle := (Option.filter_eq_some_iff.1 hm).2
    simp only [decide_eq_true_eq] at hle
    omega

theorem inRange_of_parseRetryAfterHeader {headers : HeaderMap} {now : SystemTime} {d : Duration}
    (h : parseRetryAfterHeader headers now = some d) : InRange d := by
  simp only [parseRetryAfterHeader, Option.bind_eq_bind, Option.bind_eq_some_iff] at h
  obtain ⟨value, -, text, -, h⟩ := h
  split at h
  · cases h
  · split at h
    · next secs hsecs =>
      split at h
      · cases h
      · next hpos =>
        split at h
        · cases h
        · next hmax =>
          cases h
          have hu := asU64_of_nonneg (by omega : 0 ≤ secs) (by have := parseI64_lt hsecs; omega)
          refine ⟨?_, not_lt.1 hmax⟩
          have : 0 < asU64 secs := by omega
          exact Nat.mul_pos this (by norm_num)
    · obtain ⟨parsed, -, h⟩ := Option.bind_eq_some_iff.1 h
      obtain ⟨d', -, h⟩ := Option.bind_eq_some_iff.1 h
      split at h
      · cases h
      · next hmax =>
        cases h
        rw [not_or] at hmax
        exact ⟨Nat.pos_of_ne_zero hmax.1, not_lt.1 hmax.2⟩

theorem maxRetryAfter_eq : maxRetryAfter = .fromMillis 3600000 := rfl

/-- The hint of an envelope counts if it lies between one millisecond and one hour. -/
theorem retryAfterFromMs_eq (ms : UInt32) : retryAfterFromMs ms =
    ((some ms.toNat).filter fun ms => 1 ≤ ms ∧ ms ≤ 3600000).map Duration.fromMillis := by
  have hzero : ms = 0 ↔ ms.toNat = 0 := (UInt32.toNat_inj (b := 0)).symm
  have hmax : maxRetryAfter < Duration.fromMillis ms.toNat ↔ 3600000 < ms.toNat := by
    rw [maxRetryAfter_eq, Duration.fromMillis, Duration.fromMillis]
    exact Nat.mul_lt_mul_right (by norm_num)
  rw [retryAfterFromMs, Option.filter_some]
  simp only [hzero, hmax]
  by_cases hpos : ms.toNat = 0
  · rw [if_pos hpos, if_neg (by simp [hpos]), Option.map_none]
  · rw [if_neg hpos]
    by_cases hle : ms.toNat ≤ 3600000
    · rw [if_neg (not_lt.2 hle), if_pos (by simp [hle, Nat.one_le_iff_ne_zero, hpos]),
        Option.map_some]
    · rw [if_pos (not_le.1 hle), if_neg (by simp [hle]), Option.map_none]

theorem retryAfterFromMs_of_large {ms : UInt32} (h : 3600000 < ms.toNat) :
    retryAfterFromMs ms = none := by
  rw [retryAfterFromMs_eq, Option.filter_some, if_neg (by simp [h]), Option.map_none]

theorem inRange_of_retryAfterFromMs {ms : UInt32} {d : Duration}
    (h : retryAfterFromMs ms = some d) : InRange d := by
  rw [retryAfterFromMs_eq, Option.map_eq_some_iff] at h
  obtain ⟨n, hn, rfl⟩ := h
  obtain ⟨-, hrange⟩ := Option.filter_eq_some_iff.1 hn
  obtain ⟨hpos, hle⟩ := of_decide_eq_true hrange
  rw [InRange, maxRetryAfter_eq]
  exact ⟨Nat.mul_pos hpos (by norm_num), Nat.mul_le_mul_right _ hle⟩

end Semantik
