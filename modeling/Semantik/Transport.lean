import Semantik.Lib.RetryLoop
import Semantik.Requests
import Semantik.Retry

/-!
# Sending requests

One attempt posts the body and decodes the response; the retry loop repeats it as long as the
policy says so. What the network answers to each attempt is given from outside.
-/

namespace Semantik

namespace Future

def andThen {ε α β : Type} :
    Future (Except ε α) → (α → Future (Except ε β)) → Future (Except ε β)
  | none, _ => none
  | some (.error e), _ => some (.error e)
  | some (.ok a), f => f a

variable {ε α β : Type} (f : α → Future (Except ε β))

@[simp] theorem andThen_none : andThen none f = none := rfl

@[simp] theorem andThen_error (e : ε) : andThen (some (.error e)) f = some (.error e) := rfl

@[simp] theorem andThen_ok (a : α) : andThen (some (.ok a)) f = f a := rfl

theorem andThen_assoc {γ : Type} (x : Future (Except ε γ)) (g : γ → Future (Except ε α)) :
    (x.andThen g).andThen f = x.andThen fun c => (g c).andThen f := by
  match x with
  | none => rfl
  | some (.error e) => rfl
  | some (.ok c) => rfl

theorem andThen_eq_ok_iff {x : Future (Except ε α)} {b : β} :
    x.andThen f = some (.ok b) ↔ ∃ a, x = some (.ok a) ∧ f a = some (.ok b) := by
  match x with
  | none => simp
  | some (.error e) => simp
  | some (.ok a) => simp

def mapErr {ε ε' α : Type} (f : ε → ε') (x : Future (Except ε α)) : Future (Except ε' α) :=
  x.map (Except.mapError f)

theorem mapErr_eq_ok_iff {ε ε' α : Type} {f : ε → ε'} {x : Future (Except ε α)} {a : α} :
    x.mapErr f = some (.ok a) ↔ x = some (.ok a) := by
  match x with
  | none => simp [mapErr]
  | some (.error e) => simp [mapErr, Except.mapError]
  | some (.ok a) => simp [mapErr, Except.mapError]

end Future

/-- The answers of the network, by attempt, to the posts of a body. -/
abbrev Network := List UInt8 → UInt32 → Exchange

def mimeSse : String := "text/event-stream"

structure Client where
  retry : RetryPolicy

/-- The request id of a response, absent if the header is missing, empty or not visible ASCII. -/
def requestIdFromHeaders (headers : HeaderMap) : Option String := do
  let v ← (← headers "x-request-id").toStr
  if v = "" then none else some v

/-- One exchange with the HTTP client, without a look at the response. If the HTTP client follows
redirects, they are part of it. -/
def sendRaw (exchange : Exchange) : Future (Except Error Response) :=
  exchange.send.mapErr .transport

def readCapped (resp : Response) (max : ℕ) : Future (Except Error (List UInt8)) :=
  (resp.body.bytes.mapErr .transport).andThen fun bytes =>
    if max < bytes.length then
      some (.error (.malformedResponse
        s!"response body {bytes.length} bytes exceeds {max} byte cap" resp.status))
    else some (.ok bytes)

structure ResponseType (Resp : Type) where
  fromSlice : List UInt8 → Except String Resp
  setRequestId : Resp → Option String → Resp

/-- One attempt of a request with a JSON response. -/
def sendOnceJson {Resp : Type} (deps : Dependencies) (ty : ResponseType Resp) (exchange : Exchange) :
    Future (Except Error Resp) :=
  (sendRaw exchange).andThen fun resp =>
    (readCapped resp maxResponseBytes).andThen fun bytes =>
      if ¬ isSuccess resp.status then
        some (.error (decodeErrorResponse deps resp.status resp.headers bytes exchange.now))
      else
        match ty.fromSlice bytes with
        | .error e => some (.error (.malformedResponse s!"decode response: {e}" resp.status))
        | .ok value => some (.ok (ty.setRequestId value (requestIdFromHeaders resp.headers)))

/-- The retry loop under a policy. No sleep is longer than an hour, and the attempt counter is a
32-bit integer. -/
def retryLoop {α : Type} (policy : RetryPolicy) (f : UInt32 → Future (Except Error α)) :
    RetryLoop UInt32 Error α Duration where
  start := 0
  next attempt := if attempt.toNat + 1 < 2 ^ 32 then some (attempt + 1) else none
  attempt := f
  retry := policy
  cap delay := min delay (.fromSecs 3600)

theorem retryLoop_next_ofNat {α : Type} (policy : RetryPolicy) (f : UInt32 → Future (Except Error α))
    (i : ℕ) : (retryLoop policy f).next (.ofNat i) =
      if (UInt32.ofNat i).toNat + 1 < 2 ^ 32 then some (.ofNat (i + 1)) else none := by
  have hadd : UInt32.ofNat i + 1 = UInt32.ofNat (i + 1) := by
    simp [UInt32.ofNat_add]
  rw [← hadd]
  rfl

/-- What can be seen of a call: its attempts, its sleeps, and where it stands. -/
abbrev Call (α : Type) := RetryLoop.Trace UInt32 Error α Duration

def runWithRetry {α : Type} (client : Client) (f : UInt32 → Future (Except Error α))
    (rounds : ℕ) : Call α :=
  (retryLoop client.retry f).run rounds

def sendJson {Resp : Type} (client : Client) (deps : Dependencies) (ty : ResponseType Resp)
    (body : List UInt8) (network : Network) (rounds : ℕ) : Call Resp :=
  runWithRetry client (fun attempt => sendOnceJson deps ty (network body attempt)) rounds

def failed {α : Type} (err : Error) : Call α := ⟨[], [], .returned (.error err)⟩

def preflighted {α : Type} (check : Except Error Unit) (call : Call α) : Call α :=
  match check with
  | .error err => failed err
  | .ok () => call

namespace Client

variable (client : Client) (deps : Dependencies) (network : Network)

def publishResponses : ResponseType PublishResponse :=
  ⟨deps.publishResponse, fun value requestId => { value with requestId }⟩

def publish (req : PublishRequest) (rounds : ℕ) : Call PublishResponse :=
  preflighted (req.validate deps.printable)
    (sendJson client deps (publishResponses deps) (req.toVec deps) network rounds)

def searchResponses : ResponseType SearchResponse :=
  ⟨deps.searchResponse, fun value requestId => { value with requestId }⟩

def search (req : SearchRequest) (rounds : ℕ) : Call SearchResponse :=
  preflighted req.validate
    (sendJson client deps (searchResponses deps) (req.toVec deps) network rounds)

def lintResponses : ResponseType LintResponse :=
  ⟨deps.lintResponse, fun value requestId => { value with requestId }⟩

def lint (req : LintRequest) (rounds : ℕ) : Call LintResponse :=
  preflighted req.validate
    (sendJson client deps (lintResponses deps) (req.toVec deps) network rounds)

end Client

/-- The liveness probe: one attempt, and the body of a 2xx response is not looked at. -/
def Client.health (deps : Dependencies) (exchange : Exchange) : Future (Except Error Unit) :=
  (sendRaw exchange).andThen fun resp =>
    (resp.body.bytes.mapErr .transport).andThen fun body =>
      if isSuccess resp.status then some (.ok ())
      else some (.error (decodeErrorResponse deps resp.status resp.headers body exchange.now))

end Semantik
