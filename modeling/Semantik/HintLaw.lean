import Semantik.ErrorPrecedence
import Semantik.HttpDateExact

/-!
# The hint of a failed response

The envelope's hint counts if it is from one millisecond to one hour. Otherwise the header counts,
as a number of seconds or as a date, whichever its text is: no text is both.
-/

namespace Semantik

/-- The text is a number of seconds, from one to an hour. Zeros and one plus sign may stand before
it. -/
def SecondsHint (text : List Char) (d : Duration) : Prop :=
  ∃ v, Unsigned text v ∧ 1 ≤ v ∧ v ≤ 3600 ∧ d = Duration.fromSecs v

/-- The text is read as a date, which lies ahead by at most an hour. -/
def DateHint (text : List Char) (now : SystemTime) (d : Duration) : Prop :=
  ∃ t n, Fields (asBytes (String.ofList text)) t ∧ t.unix = some n ∧
    (d : ℤ) = (Duration.fromSecs n : ℤ) - now ∧ InRange d

/-- Behind its first character, which may be a sign, an integer has digits only. -/
theorem digits_of_parseI64 {cs : List Char} {n : ℤ} (h : parseI64 cs = some n) :
    (∀ c ∈ cs, c.toNat < 0x80) ∧ ∀ c ∈ cs.tail, c.isDigit = true := by
  have hdigits : ∀ {max : ℕ} {ds : List Char} {f : ℕ → ℤ},
      ((parseDigits ds).filter (· ≤ max)).map f = some n → ∀ c ∈ ds, c.isDigit = true := by
    intro max ds f hsome
    obtain ⟨v, hv, -⟩ := Option.map_eq_some_iff.1 hsome
    exact (filter_parseDigits_eq_some_iff.1 hv).1.1.digits
  have hascii : ∀ {ds : List Char}, (∀ c ∈ ds, c.isDigit = true) → ∀ c ∈ ds, c.toNat < 0x80 := by
    intro ds hds c hc
    have := toNat_of_isDigit (hds c hc)
    omega
  unfold parseI64 parseSigned at h
  split at h
  · exact ⟨List.forall_mem_cons.2 ⟨by decide, hascii (hdigits h)⟩, hdigits h⟩
  · exact ⟨List.forall_mem_cons.2 ⟨by decide, hascii (hdigits h)⟩, hdigits h⟩
  · exact ⟨hascii (hdigits h), fun c hc => hdigits h c (List.mem_of_mem_tail hc)⟩

/-- A date has letters where an integer has digits. -/
theorem parseI64_eq_none_of_fields {cs : List Char} {t : ImfTuple}
    (h : Fields (asBytes (String.ofList cs)) t) : parseI64 cs = none := by
  rw [Option.eq_none_iff_forall_ne_some]
  intro n hn
  obtain ⟨hascii, hdigits⟩ := digits_of_parseI64 hn
  obtain ⟨i, name, hname, hfield, -⟩ := h.month
  have hmem : name ∈ monthNames := List.mem_of_getElem? hname
  have hletter : ∀ name ∈ monthNames, ∃ b ∈ asBytes name, 0x41 ≤ b.toNat := by decide
  obtain ⟨b, hb, hlarge⟩ := hletter name hmem
  rw [← hfield, asBytes_eq, String.toList_ofList, Utf8.encode_ascii hascii, field] at hb
  have htail : b ∈ cs.tail.map Utf8.asciiByte := by
    have hdrop : b ∈ (cs.map Utf8.asciiByte).drop (1 + 7) :=
      List.mem_of_mem_take (List.drop_take ▸ hb)
    rw [← List.drop_drop, ← List.map_drop, List.drop_one] at hdrop
    exact List.mem_of_mem_drop hdrop
  obtain ⟨c, hc, rfl⟩ := List.mem_map.1 htail
  have hbound := toNat_of_isDigit (hdigits c hc)
  rw [Utf8.toNat_asciiByte (by omega)] at hlarge
  omega

theorem secondsHint_iff {text : List Char} {d : Duration} : SecondsHint text d ↔
    ∃ v : ℕ, parseI64 text = some (v : ℤ) ∧ 1 ≤ v ∧ v ≤ 3600 ∧ d = Duration.fromSecs v := by
  constructor
  · rintro ⟨v, htext, hpos, hle, rfl⟩
    exact ⟨v, (parseSigned_eq_some_iff hpos).2 ⟨htext, by omega⟩, hpos, hle, rfl⟩
  · rintro ⟨v, hparse, hpos, hle, rfl⟩
    exact ⟨v, ((parseSigned_eq_some_iff hpos).1 hparse).1, hpos, hle, rfl⟩

theorem dateHint_iff {text : List Char} {now : SystemTime} {d : Duration} : DateHint text now d ↔
    ∃ parsed, httpdateParse (asBytes (String.ofList text)) = some parsed ∧
      (d : ℤ) = parsed - now ∧ InRange d := by
  constructor
  · rintro ⟨t, n, hfields, hunix, hd, hrange⟩
    exact ⟨_, httpdateParse_eq_some_iff.2 ⟨t, n, hfields, hunix, rfl⟩, hd, hrange⟩
  · rintro ⟨parsed, hparse, hd, hrange⟩
    obtain ⟨t, n, hfields, hunix, rfl⟩ := httpdateParse_eq_some_iff.1 hparse
    exact ⟨t, n, hfields, hunix, hd, hrange⟩

theorem not_dateHint_of_parseI64 {text : List Char} {n : ℤ} (h : parseI64 text = some n)
    (now : SystemTime) (d : Duration) : ¬ DateHint text now d := by
  rintro ⟨t, _, hfields, -⟩
  rw [parseI64_eq_none_of_fields hfields] at h
  cases h

theorem seconds_eq_some_iff {v : ℕ} (hv : v < 2 ^ 63) {d : Duration} :
    (if (v : ℤ) ≤ 0 then none
      else if maxRetryAfter < Duration.fromSecs (asU64 v) then none
      else some (Duration.fromSecs (asU64 v))) = some d ↔
      1 ≤ v ∧ v ≤ 3600 ∧ d = Duration.fromSecs v := by
  have hcast : asU64 v = v := by
    have := asU64_of_nonneg (Int.natCast_nonneg v) (by omega)
    omega
  have hmax : maxRetryAfter < Duration.fromSecs v ↔ 3600 < v :=
    Nat.mul_lt_mul_right (by norm_num)
  rw [hcast]
  simp only [hmax]
  split_ifs with hzero hlarge
  · apply iff_of_false (by simp)
    omega
  · apply iff_of_false (by simp)
    omega
  · rw [Option.some.injEq, eq_comm]
    exact ⟨fun hd => ⟨by omega, by omega, hd⟩, fun h => h.2.2⟩

theorem wait_eq_some_iff {parsed now : SystemTime} {d : Duration} :
    ((durationSince parsed now).bind fun d => if d = 0 ∨ maxRetryAfter < d then none else some d) =
      some d ↔ (d : ℤ) = parsed - now ∧ InRange d := by
  unfold durationSince
  rw [wait_eq]
  split_ifs with h
  · rw [Option.some.injEq]
    constructor
    · rintro rfl
      exact ⟨Int.toNat_of_nonneg h.1.le, Int.lt_toNat.2 h.1, Int.toNat_le.2 h.2⟩
    · rintro ⟨hd, -⟩
      rw [← hd, Int.toNat_natCast]
  · apply iff_of_false (by simp)
    rintro ⟨hd, hpos, hle⟩
    rw [← hd] at h
    exact h ⟨Int.natCast_pos.2 hpos, Int.ofNat_le.2 hle⟩

/-- The header gives a hint exactly if its text is such a number or such a date. -/
theorem parseRetryAfterHeader_eq_some_iff {headers : HeaderMap} {now : SystemTime} {d : Duration} :
    parseRetryAfterHeader headers now = some d ↔
      ∃ text, headers "retry-after" = some ⟨some text⟩ ∧
        (SecondsHint (trim text.toList) d ∨ DateHint (trim text.toList) now d) := by
  cases hheader : headers "retry-after" with
  | none => simp [parseRetryAfterHeader, hheader]
  | some value =>
      obtain ⟨toStr⟩ := value
      cases toStr with
      | none => simp [parseRetryAfterHeader, hheader]
      | some text =>
          have htext : (∃ text', some (HeaderValue.mk (some text)) = some ⟨some text'⟩ ∧
              (SecondsHint (trim text'.toList) d ∨ DateHint (trim text'.toList) now d)) ↔
              (SecondsHint (trim text.toList) d ∨ DateHint (trim text.toList) now d) := by
            simp
          rw [htext]
          simp only [parseRetryAfterHeader, hheader, Option.bind_eq_bind, Option.bind_some]
          generalize trim text.toList = cs
          by_cases hempty : cs = []
          · rw [if_pos hempty, hempty]
            apply iff_of_false (by simp)
            rw [secondsHint_iff, dateHint_iff]
            rintro (⟨v, hparse, -⟩ | ⟨parsed, hparse, -⟩) <;> cases hparse
          · rw [if_neg hempty]
            cases hparse : parseI64 cs with
            | some secs =>
                rw [or_iff_left (not_dateHint_of_parseI64 hparse now d), secondsHint_iff, hparse]
                dsimp only
                by_cases hneg : secs ≤ 0
                · rw [if_pos hneg]
                  apply iff_of_false (by simp)
                  rintro ⟨v, hv, hpos, -⟩
                  have := Option.some.inj hv
                  omega
                · obtain ⟨v, rfl⟩ := Int.eq_ofNat_of_zero_le (not_le.1 hneg).le
                  have hlt := parseI64_lt hparse
                  rw [seconds_eq_some_iff (by omega)]
                  simp
            | none =>
                rw [secondsHint_iff, dateHint_iff, hparse]
                cases hdate : httpdateParse (asBytes (String.ofList cs)) with
                | none => simp
                | some parsed => simpa using wait_eq_some_iff

variable (deps : Dependencies) (status : ℕ) (headers : HeaderMap) (body : List UInt8)
  (now : SystemTime)

def BodyHint (d : Duration) : Prop :=
  ∃ env, envelopeOf deps body = some env ∧ 1 ≤ env.retryAfterMs.toNat ∧
    env.retryAfterMs.toNat ≤ 3600000 ∧ d = Duration.fromMillis env.retryAfterMs.toNat

theorem bodyRetryAfter_eq_some_iff {d : Duration} :
    bodyRetryAfter deps body = some d ↔ BodyHint deps body d := by
  simp only [bodyRetryAfter, Option.map_eq_some_iff, Option.filter_eq_some_iff, decide_eq_true_eq]
  constructor
  · rintro ⟨_, ⟨⟨env, henv, rfl⟩, hpos, hle⟩, rfl⟩
    exact ⟨env, henv, hpos, hle, rfl⟩
  · rintro ⟨env, henv, hpos, hle, rfl⟩
    exact ⟨_, ⟨⟨env, henv, rfl⟩, hpos, hle⟩, rfl⟩

/-- The hint of a failed response is that of its envelope, or if this has none, the number of
seconds or the date of its header. No text is both a date and an integer, in range or not. -/
theorem hint_law (d : Duration) :
    ((decodeErrorResponse deps status headers body now).retryAfter = some d ↔
      BodyHint deps body d ∨ (∀ d', ¬ BodyHint deps body d') ∧
        ∃ text, headers "retry-after" = some ⟨some text⟩ ∧
          (SecondsHint (trim text.toList) d ∨ DateHint (trim text.toList) now d)) ∧
    (∀ text d', SecondsHint text d → ¬ DateHint text now d') ∧
    ∀ text t, Fields (asBytes (String.ofList text)) t → parseI64 text = none := by
  refine ⟨?_, ?_, fun text t => parseI64_eq_none_of_fields⟩
  · rw [retryAfter_decodeErrorResponse, ← parseRetryAfterHeader_eq_some_iff]
    simp only [← bodyRetryAfter_eq_some_iff]
    cases hbody : bodyRetryAfter deps body with
    | none => simp
    | some d' => simp
  · intro text d' hseconds
    obtain ⟨v, hparse, -⟩ := secondsHint_iff.1 hseconds
    exact not_dateHint_of_parseI64 hparse now d'

end Semantik
