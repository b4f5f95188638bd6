import Semantik.Error
import Semantik.RetryAfter
import Semantik.Wire

/-!
# Decoding failed responses

Every response outside 2xx becomes one `api` error. The body may name the code, the message, the
request id and the retry hint; the status and the headers stand in for what it leaves out.
-/

namespace Semantik

def statusCodeFallback (status : ℕ) : ErrorCode :=
  match status with
  | 400 => .invalidRequest
  | 401 => .unauthorized
  | 402 => .notBillable
  | 405 => .methodNotAllowed
  | 413 => .requestTooLarge
  | 415 => .unsupportedMediaType
  -- two codes share 429: without a body the one that is not retried is assumed
  | 429 => .rateLimited
  | 503 => .unavailable
  | _ => .internalError

def decodeErrorResponse (deps : Dependencies) (status : ℕ) (headers : HeaderMap) (body : List UInt8)
    (now : SystemTime) : Error :=
  let headerRequestId := (headers "x-request-id").bind HeaderValue.toStr
  let headerRetryAfter := parseRetryAfterHeader headers now
  let body := if maxErrorBodyBytes < body.length then body.take maxErrorBodyBytes else body
  if body = [] then
    .api (statusCodeFallback status) "" headerRequestId headerRetryAfter status
  else
    match deps.errorEnvelope body with
    | none =>
      let maxMsg := 256
      let message :=
        if body.length ≤ maxMsg then Utf8.lossy body
        else s!"malformed body ({body.length} bytes; first {maxMsg}: {debugBytes (body.take maxMsg)})"
      .api (statusCodeFallback status) message headerRequestId headerRetryAfter status
    | some env =>
      let code := if env.error = "" then statusCodeFallback status else .fromWire env.error
      let requestId := if env.requestId ≠ "" then some env.requestId else headerRequestId
      let retryAfter := (retryAfterFromMs env.retryAfterMs).or headerRetryAfter
      .api code env.message requestId retryAfter status

variable (deps : Dependencies)

/-- The envelope of an error body: of its first 64 KiB, if they are non-empty and decode. -/
def envelopeOf (body : List UInt8) : Option ErrorEnvelope :=
  if body.take maxErrorBodyBytes = [] then none else deps.errorEnvelope (body.take maxErrorBodyBytes)

def errorString (body : List UInt8) : Option String :=
  ((envelopeOf deps body).map ErrorEnvelope.error).filter (· ≠ "")

theorem cut_eq_take (body : List UInt8) :
    (if maxErrorBodyBytes < body.length then body.take maxErrorBodyBytes else body) =
      body.take maxErrorBodyBytes := by
  split_ifs with h
  · rfl
  · rw [List.take_of_length_le (not_lt.1 h)]

def excerpt (body : List UInt8) : String :=
  if body.length ≤ 256 then Utf8.lossy body
  else s!"malformed body ({body.length} bytes; first {256}: {debugBytes (body.take 256)})"

theorem decodeErrorResponse_of_none {body : List UInt8} (h : envelopeOf deps body = none)
    (status : ℕ) (headers : HeaderMap) (now : SystemTime) :
    decodeErrorResponse deps status headers body now =
      .api (statusCodeFallback status) (excerpt (body.take maxErrorBodyBytes))
        ((headers "x-request-id").bind HeaderValue.toStr) (parseRetryAfterHeader headers now)
        status := by
  unfold envelopeOf at h
  unfold decodeErrorResponse
  simp only [cut_eq_take]
  by_cases hnil : body.take maxErrorBodyBytes = []
  · rw [if_pos hnil, hnil]
    rfl
  · rw [if_neg hnil] at h ⊢
    rw [h]
    rfl

theorem decodeErrorResponse_of_some {body : List UInt8} {env : ErrorEnvelope}
    (h : envelopeOf deps body = some env) (status : ℕ) (headers : HeaderMap) (now : SystemTime) :
    decodeErrorResponse deps status headers body now =
      .api (if env.error = "" then statusCodeFallback status else .fromWire env.error) env.message
        (if env.requestId ≠ "" then some env.requestId
          else (headers "x-request-id").bind HeaderValue.toStr)
        ((retryAfterFromMs env.retryAfterMs).or (parseRetryAfterHeader headers now)) status := by
  unfold envelopeOf at h
  unfold decodeErrorResponse
  simp only [cut_eq_take]
  split_ifs at h with hnil
  rw [if_neg hnil, h]

/-- The code: the one the body names, or else the one that goes with the status. -/
def responseCode (status : ℕ) (body : List UInt8) : ErrorCode :=
  ((errorString deps body).map ErrorCode.fromWire).getD (statusCodeFallback status)

theorem exists_decodeErrorResponse (status : ℕ) (headers : HeaderMap) (body : List UInt8)
    (now : SystemTime) : ∃ message requestId retryAfter,
    decodeErrorResponse deps status headers body now =
      .api (responseCode deps status body) message requestId retryAfter status ∧
      ∀ d, retryAfter = some d → InRange d := by
  cases henv : envelopeOf deps body with
  | none =>
      have heq := decodeErrorResponse_of_none deps henv status headers now
      have hcode : responseCode deps status body = statusCodeFallback status := by
        rw [responseCode, errorString, henv]
        rfl
      rw [← hcode] at heq
      exact ⟨_, _, _, heq, fun d hd => inRange_of_parseRetryAfterHeader hd⟩
  | some env =>
      have heq := decodeErrorResponse_of_some deps henv status headers now
      have hcode : responseCode deps status body =
          if env.error = "" then statusCodeFallback status else .fromWire env.error := by
        rw [responseCode, errorString, henv]
        by_cases herr : env.error = "" <;> simp [Option.filter_some, herr]
      rw [← hcode] at heq
      refine ⟨_, _, _, heq, ?_⟩
      intro d hd
      cases hms : retryAfterFromMs env.retryAfterMs with
      | none =>
          rw [hms, Option.none_or] at hd
          exact inRange_of_parseRetryAfterHeader hd
      | some d' =>
          rw [hms, Option.some_or] at hd
          cases hd
          exact inRange_of_retryAfterFromMs hms

end Semantik
