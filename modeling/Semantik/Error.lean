import Semantik.Http

/-!
# Errors of the client

Every method fails with an `Error`. A structured answer of the server and a rejection by the
preflight checks are both `api` errors; a zero status tells the second from the first.
-/

namespace Semantik

inductive ErrorCode where
  | invalidRequest
  | unauthorized
  | notBillable
  | methodNotAllowed
  | unsupportedMediaType
  | requestTooLarge
  | rateLimited
  | tooManyRequests
  | backpressure
  | unavailable
  | namespaceUnavailable
  | namespaceDisabled
  | modelNotProvisioned
  | meteringUnavailable
  | internalError
  | malformedResponse
  | unknown (code : String)
deriving DecidableEq, Repr

namespace ErrorCode

def asStr : ErrorCode → String
  | invalidRequest => "invalid_request"
  | unauthorized => "unauthorized"
  | notBillable => "not_billable"
  | methodNotAllowed => "method_not_allowed"
  | unsupportedMediaType => "unsupported_media_type"
  | requestTooLarge => "request_too_large"
  | rateLimited => "rate_limited"
  | tooManyRequests => "too_many_requests"
  | backpressure => "backpressure"
  | unavailable => "unavailable"
  | namespaceUnavailable => "namespace_unavailable"
  | namespaceDisabled => "namespace_disabled"
  | modelNotProvisioned => "model_not_provisioned"
  | meteringUnavailable => "metering_unavailable"
  | internalError => "internal_error"
  | malformedResponse => "malformed_response"
  | unknown code => code

def fromWire (s : String) : ErrorCode :=
  match s with
  | "invalid_request" => invalidRequest
  | "unauthorized" => unauthorized
  | "not_billable" => notBillable
  | "method_not_allowed" => methodNotAllowed
  | "unsupported_media_type" => unsupportedMediaType
  | "request_too_large" => requestTooLarge
  | "rate_limited" => rateLimited
  | "too_many_requests" => tooManyRequests
  | "backpressure" => backpressure
  | "unavailable" => unavailable
  | "namespace_unavailable" => namespaceUnavailable
  | "namespace_disabled" => namespaceDisabled
  | "model_not_provisioned" => modelNotProvisioned
  | "metering_unavailable" => meteringUnavailable
  | "internal_error" => internalError
  | "malformed_response" => malformedResponse
  | other => unknown other

@[simp] theorem asStr_fromWire (s : String) : (fromWire s).asStr = s := by
  unfold fromWire
  split <;> rfl

/-- A listed code is decoded from its own wire text and from no other. -/
theorem fromWire_eq_iff {s : String} {code : ErrorCode} (h : ∀ s, code ≠ unknown s) :
    fromWire s = code ↔ s = code.asStr := by
  constructor
  · rintro rfl
    exact (asStr_fromWire s).symm
  · rintro rfl
    cases code with
    | unknown s => exact absurd rfl (h s)
    | _ => rfl

end ErrorCode

inductive Error where
  | api (code : ErrorCode) (message : String) (requestId : Option String)
      (retryAfter : Option Duration) (httpStatus : ℕ)
  | malformedSse (message : String)
  | subscribeSetup (source : Error)
  | subscribeStream (source : Error)
  | invalidApiKey
  | missingApiKey
  | transport (e : ReqwestError)
deriving DecidableEq, Repr

namespace Error

/-- A rejection by the client itself, before anything is sent. -/
def preflight (message : String) : Error := .api .invalidRequest message none none 0

def malformedResponse (message : String) (httpStatus : ℕ) : Error :=
  .api .malformedResponse message none none httpStatus

def code : Error → Option ErrorCode
  | api code _ _ _ _ => some code
  | subscribeSetup source | subscribeStream source => source.code
  | _ => none

def httpStatus : Error → Option ℕ
  | api _ _ _ _ httpStatus => some httpStatus
  | subscribeSetup source | subscribeStream source => source.httpStatus
  | _ => none

def requestId : Error → Option String
  | api _ _ requestId _ _ => requestId
  | subscribeSetup source | subscribeStream source => source.requestId
  | _ => none

def retryAfter : Error → Option Duration
  | api _ _ _ retryAfter _ => retryAfter
  | subscribeSetup source | subscribeStream source => source.retryAfter
  | _ => none

def isPreflight : Error → Bool
  | api _ _ _ _ httpStatus => httpStatus == 0
  | _ => false

end Error

end Semantik
