import Semantik.Subscribe

/-!
# Three readings of a failed response

The JSON endpoints, `health` and the subscribe handshake each read a failed response themselves.
`health` and the handshake always report what `decodeErrorResponse` makes of it. The JSON path
applies its cap on bodies before it looks at the status.
-/

namespace Semantik

variable (deps : Dependencies) {α : Type} (ty : ResponseType α) (status : ℕ) (headers : HeaderMap)
  (events : List BodyEvent) (now : SystemTime)

def received : Exchange := ⟨some (.ok ⟨status, headers, ⟨events, .eof⟩⟩), now⟩

def capMessage (length : ℕ) : String :=
  s!"response body {length} bytes exceeds {maxResponseBytes} byte cap"

/-- The error of the decoder for this response. -/
def decodedError : Error :=
  decodeErrorResponse deps status headers (chunksOf events).flatten now

theorem health_received (h : ¬ isSuccess status) :
    Client.health deps (received status headers events now) =
      some (.error (decodedError deps status headers events now)) := by
  simp only [Client.health, received, sendRaw, Future.mapErr, Option.map_some, Except.mapError,
    Future.andThen_ok, Body.bytes]
  rw [if_neg h]
  rfl

theorem subscribeOnce_received (h : ¬ isSuccess status) :
    subscribeOnce deps (received status headers events now) =
      some (.error (decodedError deps status headers events now)) := by
  simp only [subscribeOnce, received, sendRaw, Future.mapErr, Option.map_some, Except.mapError,
    Future.andThen_ok, Body.bytes]
  rw [if_pos h]
  rfl

theorem sendOnceJson_received (h : ¬ isSuccess status) :
    sendOnceJson deps ty (received status headers events now) =
      some (.error (if maxResponseBytes < (chunksOf events).flatten.length then
        .malformedResponse (capMessage (chunksOf events).flatten.length) status
        else decodedError deps status headers events now)) := by
  simp only [sendOnceJson, received, sendRaw, Future.mapErr, Option.map_some, Except.mapError,
    Future.andThen_ok, readCapped, Body.bytes]
  split_ifs with hlarge
  · rfl
  · rfl

/-- The body and the headers happen to spell the error of the cap. -/
structure SpellsCapError (env : ErrorEnvelope) : Prop where
  envelope : envelopeOf deps (chunksOf events).flatten = some env
  error : env.error = "malformed_response"
  message : env.message = capMessage (chunksOf events).flatten.length
  requestId : env.requestId = "" ∧ (headers "x-request-id").bind HeaderValue.toStr = none
  retryAfter : retryAfterFromMs env.retryAfterMs = none ∧ parseRetryAfterHeader headers now = none

theorem statusCodeFallback_ne_malformedResponse : statusCodeFallback status ≠ .malformedResponse := by
  unfold statusCodeFallback
  split <;> decide

theorem decodedError_eq_malformedResponse_iff :
    decodedError deps status headers events now =
        .malformedResponse (capMessage (chunksOf events).flatten.length) status ↔
      ∃ env, SpellsCapError deps headers events now env := by
  have hfallback := statusCodeFallback_ne_malformedResponse status
  rw [decodedError, Error.malformedResponse]
  constructor
  · intro h
    cases henv : envelopeOf deps (chunksOf events).flatten with
    | none =>
        rw [decodeErrorResponse_of_none deps henv] at h
        injection h with hcode
        exact absurd hcode hfallback
    | some env =>
        rw [decodeErrorResponse_of_some deps henv] at h
        injection h with hcode hmessage hrequestId hretryAfter
        by_cases herror : env.error = ""
        · rw [if_pos herror] at hcode
          exact absurd hcode hfallback
        rw [if_neg herror, ErrorCode.fromWire_eq_iff (by rintro _ ⟨⟩)] at hcode
        by_cases hid : env.requestId = ""
        swap
        · rw [if_pos hid] at hrequestId
          cases hrequestId
        rw [if_neg (not_not.2 hid)] at hrequestId
        exact ⟨env, henv, hcode, hmessage, ⟨hid, hrequestId⟩, Option.or_eq_none_iff.1 hretryAfter⟩
  · rintro ⟨env, henv, herror, hmessage, ⟨hid, hheader⟩, hms, hhint⟩
    rw [decodeErrorResponse_of_some deps henv, herror, hmessage, if_neg (not_not.2 hid), hheader, hms,
      hhint]
    rfl

def Agree : Prop :=
  sendOnceJson deps ty (received status headers events now) =
      some (.error (decodedError deps status headers events now)) ∧
    Client.health deps (received status headers events now) =
      some (.error (decodedError deps status headers events now)) ∧
    subscribeOnce deps (received status headers events now) =
      some (.error (decodedError deps status headers events now))

/-- They do exactly on the responses whose body is within the cap of the JSON path, and on those
that happen to spell the error of the cap. -/
theorem agree_iff (h : ¬ isSuccess status) : Agree deps ty status headers events now ↔
    (chunksOf events).flatten.length ≤ maxResponseBytes ∨
      ∃ env, SpellsCapError deps headers events now env := by
  rw [Agree, health_received deps status headers events now h,
    subscribeOnce_received deps status headers events now h,
    sendOnceJson_received deps ty status headers events now h,
    ← decodedError_eq_malformedResponse_iff deps status headers events now]
  simp only [and_true, Option.some.injEq, Except.error.injEq]
  split_ifs with hlarge
  · rw [or_iff_right (not_le.2 hlarge)]
    exact eq_comm
  · exact iff_of_true rfl (.inl (not_lt.1 hlarge))

def busyHeaders : HeaderMap := fun name =>
  if name = "x-request-id" then some ⟨some "r"⟩
  else if name = "retry-after" then some ⟨some "5"⟩
  else none

def largeBody (n : ℕ) : List BodyEvent := [.chunk (List.replicate n 0x61)]

theorem length_largeBody (n : ℕ) : (chunksOf (largeBody n)).flatten.length = n := by
  simp [largeBody, chunksOf]

/-- With a body of backpressure they agree, and with one over the cap only if it spells the error of
the cap. -/
theorem agree_iff_busyHeaders : ¬ isSuccess 503 ∧
    Agree .sample (Client.publishResponses .sample) 503 busyHeaders
      [.pending, .chunk (asBytes "\x7b\"error\":\"backpressure\"\x7d")] 0 ∧
    (Agree .sample (Client.publishResponses .sample) 503 busyHeaders (largeBody 1048577) 0 ↔
      ∃ env, SpellsCapError .sample busyHeaders (largeBody 1048577) 0 env) := by
  have hlarge : ¬ (chunksOf (largeBody 1048577)).flatten.length ≤ maxResponseBytes := by
    rw [length_largeBody]
    decide
  exact ⟨by decide, (agree_iff .sample _ 503 busyHeaders _ 0 (by decide)).2 (.inl (by decide)),
    (agree_iff .sample _ 503 busyHeaders _ 0 (by decide)).trans (or_iff_right hlarge)⟩

/-- A 503 with a body of one byte more than 1 MiB: on the JSON path it is a malformed response. -/
theorem not_agree_largeBody :
    ¬ isSuccess 503 ∧ ¬ Agree .sample (Client.publishResponses .sample) 503 busyHeaders
      (largeBody 1048577) 0 := by
  refine ⟨by decide, ?_⟩
  intro hagree
  have hjson := hagree.1
  have hlarge : maxResponseBytes < (chunksOf (largeBody 1048577)).flatten.length := by
    rw [length_largeBody]
    decide
  rw [sendOnceJson_received _ _ _ _ _ _ (by decide), if_pos hlarge, Option.some.injEq,
    Except.error.injEq, eq_comm, decodedError_eq_malformedResponse_iff] at hjson
  obtain ⟨env, hspells⟩ := hjson
  exact absurd hspells.requestId.2 (by decide)

end Semantik
