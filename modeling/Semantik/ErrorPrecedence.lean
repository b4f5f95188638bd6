import Semantik.Transport

/-!
# Body over header

The request id and the retry hint of a decoded error each have two sources, the envelope in the body
and a header. The envelope comes first; the header stands in for what it leaves out. On a 2xx
response the same request id header is read by `requestIdFromHeaders`, for which an empty value is
none.
-/

namespace Semantik

variable (deps : Dependencies) (status : ℕ) (headers : HeaderMap) (body : List UInt8)
  (now : SystemTime)

def bodyRequestId : Option String :=
  ((envelopeOf deps body).map ErrorEnvelope.requestId).filter (· ≠ "")

def bodyRetryAfter : Option Duration :=
  (((envelopeOf deps body).map fun env => env.retryAfterMs.toNat).filter
    fun ms => 1 ≤ ms ∧ ms ≤ 3600000).map Duration.fromMillis

/-- The value of the request id header, which may be empty. -/
def headerRequestId : Option String := (headers "x-request-id").bind HeaderValue.toStr

/-- An error for this response in which the body goes before the headers. -/
structure BodyFirst (err : Error) : Prop where
  httpStatus : err.httpStatus = some status
  requestId : err.requestId = (bodyRequestId deps body).or (requestIdFromHeaders headers)
  requestId_ne : err.requestId ≠ some ""
  retryAfter : err.retryAfter = (bodyRetryAfter deps body).or (parseRetryAfterHeader headers now)
  code : ∀ e, errorString deps body = some e → ∃ code, err.code = some code ∧ code.asStr = e

theorem requestIdFromHeaders_eq :
    requestIdFromHeaders headers = (headerRequestId headers).filter (· ≠ "") := by
  rw [requestIdFromHeaders, headerRequestId]
  cases headers "x-request-id" with
  | none => rfl
  | some value =>
      cases htext : value.toStr with
      | none => simp [htext]
      | some v => by_cases hv : v = "" <;> simp [htext, hv, Option.filter_some]

theorem requestId_decodeErrorResponse :
    (decodeErrorResponse deps status headers body now).requestId =
      (bodyRequestId deps body).or (headerRequestId headers) := by
  cases henv : envelopeOf deps body with
  | none =>
      rw [decodeErrorResponse_of_none deps henv, bodyRequestId, henv]
      rfl
  | some env =>
      rw [decodeErrorResponse_of_some deps henv, bodyRequestId, henv, Error.requestId,
        Option.map_some, Option.filter_some]
      by_cases hid : env.requestId = "" <;> simp [hid, headerRequestId]

theorem retryAfter_decodeErrorResponse :
    (decodeErrorResponse deps status headers body now).retryAfter =
      (bodyRetryAfter deps body).or (parseRetryAfterHeader headers now) := by
  cases henv : envelopeOf deps body with
  | none =>
      rw [decodeErrorResponse_of_none deps henv, bodyRetryAfter, henv]
      rfl
  | some env =>
      rw [decodeErrorResponse_of_some deps henv, bodyRetryAfter, henv, Error.retryAfter,
        retryAfterFromMs_eq]
      rfl

/-- Dropping an empty second value changes nothing and no empty value comes out, unless the second
value is empty and counts. -/
theorem or_eq_filter_or_iff {x y : Option String} (hx : x ≠ some "") :
    (x.or y = x.or (y.filter (· ≠ "")) ∧ x.or y ≠ some "") ↔ y ≠ some "" ∨ ∃ v, x = some v := by
  cases x with
  | some v => simpa using hx
  | none =>
      cases y with
      | none => simp
      | some w => by_cases hw : w = "" <;> simp [Option.filter_some, hw]

theorem exists_bodyRequestId_iff : (∃ v, bodyRequestId deps body = some v) ↔
    ∃ env, envelopeOf deps body = some env ∧ env.requestId ≠ "" := by
  simp only [bodyRequestId, Option.filter_eq_some_iff, Option.map_eq_some_iff, decide_eq_true_eq]
  constructor
  · rintro ⟨_, ⟨env, henv, rfl⟩, hne⟩
    exact ⟨env, henv, hne⟩
  · rintro ⟨env, henv, hne⟩
    exact ⟨_, ⟨env, henv, rfl⟩, hne⟩

theorem bodyRequestId_ne : bodyRequestId deps body ≠ some "" := by
  intro hempty
  exact of_decide_eq_true (Option.filter_eq_some_iff.1 hempty).2 rfl

/-- In the decoded error the body goes before the headers, exactly if the request id header is not
empty or the body names a request id. -/
theorem bodyFirst_iff :
    BodyFirst deps status headers body now (decodeErrorResponse deps status headers body now) ↔
      (headers "x-request-id").bind HeaderValue.toStr ≠ some "" ∨
        ∃ env, envelopeOf deps body = some env ∧ env.requestId ≠ "" := by
  rw [← exists_bodyRequestId_iff, ← headerRequestId,
    ← or_eq_filter_or_iff (bodyRequestId_ne deps body), ← requestIdFromHeaders_eq,
    ← requestId_decodeErrorResponse deps status headers body now]
  constructor
  · intro h
    exact ⟨h.requestId, h.requestId_ne⟩
  · intro h
    obtain ⟨message, requestId, retryAfter, heq, -⟩ :=
      exists_decodeErrorResponse deps status headers body now
    refine ⟨by rw [heq, Error.httpStatus], h.1, h.2,
      retryAfter_decodeErrorResponse deps status headers body now, ?_⟩
    intro e he
    refine ⟨.fromWire e, ?_, ErrorCode.asStr_fromWire e⟩
    rw [heq, Error.code, responseCode, he]
    rfl

def emptyIdHeaders : HeaderMap := fun name => if name = "x-request-id" then some ⟨some ""⟩ else none

/-- The decoded error has an empty request id. On a 2xx response there would be none. -/
theorem not_bodyFirst_emptyIdHeaders :
    ¬ BodyFirst .sample 500 emptyIdHeaders [] 0
      (decodeErrorResponse .sample 500 emptyIdHeaders [] 0) := by
  intro h
  exact h.requestId_ne rfl

end Semantik
