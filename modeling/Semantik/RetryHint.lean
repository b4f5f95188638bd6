import Semantik.Retry

/-!
# Retry hints and the rest of the error

A hint that is of no use should be no hint, and nothing else in the error should depend on it. The
`Retry-After` header keeps to that. A `retry_after_ms` outside the type of its field makes the whole
envelope undecodable, and the error is made from the status instead.
-/

namespace Semantik

/-- A JSON object with the members of an error envelope. The hint is a non-negative integer of any
size, if there is one. -/
structure EnvelopeObject where
  error : String
  message : String
  requestId : String
  retryAfterMs : Option ℕ
deriving DecidableEq

/-- The derived decoder of `ErrorEnvelope`: a missing hint has its default, and an integer outside
the range of its field fails the whole structure. -/
def EnvelopeObject.deserialize (obj : EnvelopeObject) : Option ErrorEnvelope :=
  match obj.retryAfterMs with
  | none => some ⟨obj.error, obj.message, obj.requestId, 0⟩
  | some n =>
    if n < 2 ^ 32 then some ⟨obj.error, obj.message, obj.requestId, UInt32.ofNat n⟩ else none

/-- What is used of the JSON library: `objectOf` reads a text as such an object, an empty text is
none, and the decoder decodes the object that its text denotes. -/
structure DecodesObjects (deps : Dependencies) (objectOf : List UInt8 → Option EnvelopeObject) :
    Prop where
  empty : objectOf [] = none
  decode : ∀ text obj, objectOf text = some obj → deps.errorEnvelope text = obj.deserialize

def DifferInHint (err err' : Error) : Prop := ∃ code message requestId httpStatus,
  (∃ retryAfter, err = .api code message requestId retryAfter httpStatus) ∧
    ∃ retryAfter, err' = .api code message requestId retryAfter httpStatus

variable {deps : Dependencies} {objectOf : List UInt8 → Option EnvelopeObject}

theorem envelopeOf_eq_deserialize (h : DecodesObjects deps objectOf) {text : List UInt8}
    {obj : EnvelopeObject} (htext : objectOf text = some obj)
    (hsize : text.length ≤ maxErrorBodyBytes) : envelopeOf deps text = obj.deserialize := by
  have hne : text ≠ [] := by
    intro hnil
    rw [hnil, h.empty] at htext
    cases htext
  rw [envelopeOf, List.take_of_length_le hsize, if_neg hne, h.decode text obj htext]

def EnvelopeObject.code (obj : EnvelopeObject) (status : ℕ) : ErrorCode :=
  if obj.error = "" then statusCodeFallback status else .fromWire obj.error

def EnvelopeObject.requestIdFrom (obj : EnvelopeObject) (headers : HeaderMap) : Option String :=
  if obj.requestId ≠ "" then some obj.requestId
  else (headers "x-request-id").bind HeaderValue.toStr

/-- The members of the object happen to spell the error of an undecodable body. -/
structure SpellsFallback (obj : EnvelopeObject) (status : ℕ) (headers : HeaderMap)
    (text : List UInt8) : Prop where
  code : obj.code status = statusCodeFallback status
  message : obj.message = excerpt text
  requestId : obj.requestIdFrom headers = (headers "x-request-id").bind HeaderValue.toStr

def EnvelopeObject.HintFits (obj : EnvelopeObject) : Prop :=
  ∀ n, obj.retryAfterMs = some n → n < 2 ^ 32

theorem deserialize_of_hintFits {obj : EnvelopeObject} (h : obj.HintFits) :
    ∃ ms, obj.deserialize = some ⟨obj.error, obj.message, obj.requestId, ms⟩ ∧
      ms.toNat = obj.retryAfterMs.getD 0 := by
  cases hhint : obj.retryAfterMs with
  | none => exact ⟨0, by rw [EnvelopeObject.deserialize, hhint], rfl⟩
  | some n =>
      have hn := h n hhint
      refine ⟨UInt32.ofNat n, ?_, UInt32.toNat_ofNat_of_lt' hn⟩
      rw [EnvelopeObject.deserialize, hhint]
      exact if_pos hn

theorem deserialize_of_not_hintFits {obj : EnvelopeObject} (h : ¬ obj.HintFits) :
    obj.deserialize = none := by
  rw [EnvelopeObject.HintFits] at h
  push Not at h
  obtain ⟨n, hhint, hn⟩ := h
  rw [EnvelopeObject.deserialize, hhint]
  exact if_neg (not_lt.2 hn)

section decoded

variable (h : DecodesObjects deps objectOf) {obj : EnvelopeObject} {text : List UInt8}
  (htext : objectOf text = some obj) (hsize : text.length ≤ maxErrorBodyBytes) (status : ℕ)
  (headers : HeaderMap) (now : SystemTime)

include h htext hsize

theorem decodeErrorResponse_of_hintFits (hfits : obj.HintFits) :
    ∃ ms, decodeErrorResponse deps status headers text now =
      .api (obj.code status) obj.message (obj.requestIdFrom headers)
        ((retryAfterFromMs ms).or (parseRetryAfterHeader headers now)) status ∧
      ms.toNat = obj.retryAfterMs.getD 0 := by
  obtain ⟨ms, hms, hvalue⟩ := deserialize_of_hintFits hfits
  have henv := (envelopeOf_eq_deserialize h htext hsize).trans hms
  exact ⟨ms, decodeErrorResponse_of_some deps henv status headers now, hvalue⟩

theorem decodeErrorResponse_of_not_hintFits (hfits : ¬ obj.HintFits) :
    decodeErrorResponse deps status headers text now =
      .api (statusCodeFallback status) (excerpt text)
        ((headers "x-request-id").bind HeaderValue.toStr) (parseRetryAfterHeader headers now)
        status := by
  have henv := (envelopeOf_eq_deserialize h htext hsize).trans (deserialize_of_not_hintFits hfits)
  rw [decodeErrorResponse_of_none deps henv, List.take_of_length_le hsize]

end decoded

/-- Replacing the hints of a response changes no more than the hint of its error; and an error that
says to wait, without a hint of use, is retried on the fallback schedule. -/
def HintHarmless (deps : Dependencies) (obj : EnvelopeObject) (status : ℕ)
    (headers headers' : HeaderMap) (plain text : List UInt8) (now : SystemTime) : Prop :=
  DifferInHint (decodeErrorResponse deps status headers plain now)
      (decodeErrorResponse deps status headers' text now) ∧
    (obj.error = "backpressure" ∨ obj.error = "unavailable" →
      (∃ n, obj.retryAfterMs = some n ∧ 3600000 < n) → parseRetryAfterHeader headers' now = none →
      ∀ maxAttempts attempt, attempt < maxAttempts →
        (TransientRetry.new maxAttempts).shouldRetry attempt
          (decodeErrorResponse deps status headers' text now) = some (fallbackBackoff attempt))

theorem isTransient_code {obj : EnvelopeObject} (status : ℕ)
    (herror : obj.error = "backpressure" ∨ obj.error = "unavailable") :
    (obj.code status).IsTransient := by
  rw [EnvelopeObject.code]
  rcases herror with herror | herror
  · rw [herror, if_neg (by decide)]
    decide
  · rw [herror, if_neg (by decide)]
    decide

section replaced

variable (h : DecodesObjects deps objectOf) {obj : EnvelopeObject} {plain text : List UInt8}
  (hplain : objectOf plain = some { obj with retryAfterMs := none })
  (htext : objectOf text = some obj) (hplain_le : plain.length ≤ maxErrorBodyBytes)
  (htext_le : text.length ≤ maxErrorBodyBytes) (status : ℕ) {headers headers' : HeaderMap}
  (hheaders : ∀ name, name ≠ "retry-after" → headers' name = headers name) (now : SystemTime)

include h hplain hplain_le

/-- Without a hint the object decodes. -/
theorem exists_decodeErrorResponse_plain (headers : HeaderMap) : ∃ retryAfter,
    decodeErrorResponse deps status headers plain now =
      .api (obj.code status) obj.message (obj.requestIdFrom headers) retryAfter status := by
  have hnone : { obj with retryAfterMs := none }.HintFits := by
    intro n hn
    cases hn
  obtain ⟨_, hdecoded, _⟩ :=
    decodeErrorResponse_of_hintFits h hplain hplain_le status headers now hnone
  exact ⟨_, hdecoded⟩

include htext htext_le hheaders

theorem hintHarmless_of_hintFits (hfits : obj.HintFits) :
    HintHarmless deps obj status headers headers' plain text now := by
  obtain ⟨_, hdecoded⟩ := exists_decodeErrorResponse_plain h hplain hplain_le status now headers
  obtain ⟨ms, hdecoded', hms⟩ :=
    decodeErrorResponse_of_hintFits h htext htext_le status headers' now hfits
  have hrequestId : obj.requestIdFrom headers' = obj.requestIdFrom headers := by
    rw [EnvelopeObject.requestIdFrom, EnvelopeObject.requestIdFrom,
      hheaders "x-request-id" (by decide)]
  rw [hrequestId] at hdecoded'
  refine ⟨⟨_, _, _, _, ⟨_, hdecoded⟩, _, hdecoded'⟩, ?_⟩
  rintro herror ⟨n, hhint, hn⟩ hheader maxAttempts attempt hlt
  rw [hhint, Option.getD_some] at hms
  rw [hdecoded', TransientRetry.shouldRetry_eq_some_iff, Error.isTransient_api, Error.retryAfter,
    hheader, retryAfterFromMs_of_large (hms.symm ▸ hn)]
  exact ⟨hlt, isTransient_code status herror, rfl⟩

theorem hintHarmless_iff_of_not_hintFits (hfits : ¬ obj.HintFits) :
    HintHarmless deps obj status headers headers' plain text now ↔
      SpellsFallback obj status headers text := by
  obtain ⟨_, hdecoded⟩ := exists_decodeErrorResponse_plain h hplain hplain_le status now headers
  have hdecoded' := decodeErrorResponse_of_not_hintFits h htext htext_le status headers' now hfits
  rw [hheaders "x-request-id" (by decide)] at hdecoded'
  constructor
  · rintro ⟨⟨code, message, requestId, httpStatus, ⟨_, herr⟩, _, herr'⟩, -⟩
    rw [hdecoded] at herr
    rw [hdecoded'] at herr'
    injection herr with hcode hmessage hrequestId
    injection herr' with hcode' hmessage' hrequestId'
    exact ⟨hcode.trans hcode'.symm, hmessage.trans hmessage'.symm,
      hrequestId.trans hrequestId'.symm⟩
  · rintro ⟨hcode, hmessage, hrequestId⟩
    rw [← hcode, ← hmessage, ← hrequestId] at hdecoded'
    refine ⟨⟨_, _, _, _, ⟨_, hdecoded⟩, _, hdecoded'⟩, ?_⟩
    intro herror _ hheader maxAttempts attempt hlt
    rw [hdecoded', TransientRetry.shouldRetry_eq_some_iff, Error.isTransient_api,
      Error.retryAfter, hheader]
    exact ⟨hlt, isTransient_code status herror, rfl⟩

end replaced

/-- Replacing the hints of a response is harmless exactly if the new hint of the body fits the type
of its field, or the other members happen to spell the error of an undecodable body. -/
theorem hintHarmless_iff (h : DecodesObjects deps objectOf) {obj : EnvelopeObject}
    {plain text : List UInt8} (hplain : objectOf plain = some { obj with retryAfterMs := none })
    (htext : objectOf text = some obj) (hplain_le : plain.length ≤ maxErrorBodyBytes)
    (htext_le : text.length ≤ maxErrorBodyBytes) (status : ℕ) {headers headers' : HeaderMap}
    (hheaders : ∀ name, name ≠ "retry-after" → headers' name = headers name) (now : SystemTime) :
    HintHarmless deps obj status headers headers' plain text now ↔
      obj.HintFits ∨ SpellsFallback obj status headers text := by
  by_cases hfits : obj.HintFits
  · have hharmless := hintHarmless_of_hintFits h hplain htext hplain_le htext_le status hheaders now
      hfits
    exact iff_of_true hharmless (.inl hfits)
  · rw [or_iff_right hfits]
    exact hintHarmless_iff_of_not_hintFits h hplain htext hplain_le htext_le status hheaders now hfits

def busyObject : EnvelopeObject := ⟨"backpressure", "", "", some 4294967296⟩

def busyPlain : List UInt8 := asBytes "\x7b\"error\":\"backpressure\"\x7d"

def busyText : List UInt8 :=
  asBytes "\x7b\"error\":\"backpressure\",\"retry_after_ms\":4294967296\x7d"

def busyObjectOf (text : List UInt8) : Option EnvelopeObject :=
  if text = busyPlain then some { busyObject with retryAfterMs := none }
  else if text = busyText then some busyObject
  else none

def busyDeps : Dependencies :=
  { Dependencies.sample with errorEnvelope text := (busyObjectOf text).bind (·.deserialize) }

theorem decodesObjects_busy : DecodesObjects busyDeps busyObjectOf := by
  refine ⟨by decide, ?_⟩
  intro text obj htext
  change (busyObjectOf text).bind (·.deserialize) = _
  rw [htext]
  rfl

theorem hintHarmless_iff_busy :
    HintHarmless busyDeps busyObject 429 (fun _ => none) (fun _ => none) busyPlain busyText 0 ↔
      busyObject.HintFits ∨ SpellsFallback busyObject 429 (fun _ => none) busyText :=
  hintHarmless_iff decodesObjects_busy (by decide) (by decide) (by decide) (by decide) 429
    (fun _ _ => rfl) 0

/-- With the hint, the error is that of a client that is blocked, and is not retried. -/
theorem not_hintHarmless_busy : DecodesObjects busyDeps busyObjectOf ∧
    busyObjectOf busyPlain = some { busyObject with retryAfterMs := none } ∧
    busyObjectOf busyText = some busyObject ∧
    ¬ HintHarmless busyDeps busyObject 429 (fun _ => none) (fun _ => none) busyPlain busyText 0 := by
  refine ⟨decodesObjects_busy, by decide, by decide, ?_⟩
  intro h
  obtain ⟨code, _, _, _, ⟨_, herr⟩, _, herr'⟩ := h.1
  injection herr with hcode
  injection herr' with hcode'
  exact absurd (hcode.trans hcode'.symm) (by decide)

end Semantik
