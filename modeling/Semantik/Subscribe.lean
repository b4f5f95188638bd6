import Semantik.Sse
import Semantik.Transport

/-!
# Subscriptions

`subscribeOnce` posts the request and reads the body up to its first frame, which must be
`subscribed`. The scanner, the frames it has already yielded and the rest of the body then become a
`Subscription`, a stream whose items are the decoded `match` frames.
-/

namespace Semantik

def isEventStreamContentType (ct : String) : Bool :=
  (trim (ct.toList.takeWhile (· ≠ ';'))).map toAsciiLowercase =
    mimeSse.toList.map toAsciiLowercase

structure Subscription where
  id : String
  requestId : Option String
  body : Body
  scanner : Scanner
  pending : List Frame
  finished : Bool
  closedWithError : Bool
deriving DecidableEq

/-- What the handshake loop leaves: the first frame, the rest of the body, the scanner and the
frames that arrived together with the first one. -/
structure Handshake where
  first : Frame
  body : Body
  scanner : Scanner
  pending : List Frame
deriving DecidableEq

/-- Read the body until there is a frame. Pending polls are waited out. -/
def firstFrame (fin : BodyEnd) :
    List BodyEvent → Scanner → List Frame → Future (Except Error Handshake)
  | events, scanner, frame :: pending => some (.ok ⟨frame, ⟨events, fin⟩, scanner, pending⟩)
  | .pending :: events, scanner, [] => firstFrame fin events scanner []
  | .chunk bytes :: events, scanner, [] =>
    match scanner.feed bytes with
    | (.ok frames, scanner) => firstFrame fin events scanner frames
    | (.error (.frameTooLarge n), _) =>
      some (.error (.malformedSse s!"subscribed frame exceeds {n} bytes"))
  | [], scanner, [] =>
    match fin with
    | .idle => none
    | .error e => some (.error (.transport e))
    | .eof =>
      match scanner.close with
      | (.ok (some frame), scanner) => some (.ok ⟨frame, ⟨[], .eof⟩, scanner, []⟩)
      | (.ok none, _) => some (.error (.malformedSse "stream closed before subscribed frame"))
      | (.error (.frameTooLarge n), _) =>
        some (.error (.malformedSse s!"subscribed frame exceeds {n} bytes"))

section

variable (deps : Dependencies)

def startStream (requestId : Option String) (h : Handshake) : Future (Except Error Subscription) :=
  if h.first.event ≠ "subscribed" then
    some (.error (.malformedSse
      s!"expected 'subscribed' event, got {debugStr deps.printable h.first.event}"))
  else
    match deps.subscribedEvent h.first.data with
    | .error e => some (.error (.malformedSse s!"decode subscribed frame: {e}"))
    | .ok sub =>
      if sub.subscriptionId = "" then
        some (.error (.malformedSse "subscribed frame missing subscription_id"))
      else
        some (.ok
          { id := sub.subscriptionId
            requestId
            body := h.body
            scanner := h.scanner
            pending := h.pending
            finished := false
            closedWithError := false })

def subscribeOnce (exchange : Exchange) : Future (Except Error Subscription) :=
  (sendRaw exchange).andThen fun resp =>
    if ¬ isSuccess resp.status then
      (resp.body.bytes.mapErr .transport).andThen fun body =>
        some (.error (decodeErrorResponse deps resp.status resp.headers body exchange.now))
    else
      let contentType := ((resp.headers "content-type").bind HeaderValue.toStr).getD ""
      if ¬ isEventStreamContentType contentType then
        some (.error (.malformedSse
          s!"expected {mimeSse}, got {debugStr deps.printable contentType}"))
      else
        (firstFrame resp.body.fin resp.body.events .new []).andThen
          (startStream deps (requestIdFromHeaders resp.headers))

def mapErr {α : Type} (f : Error → Error) (call : Call α) : Call α :=
  match call.phase with
  | .returned (.error err) => { call with phase := .returned (.error (f err)) }
  | _ => call

def decodeMatch (data : String) : Except Error MatchEvent :=
  (deps.matchEvent data).mapError fun e =>
    .malformedSse s!"decode match frame: {e}; payload={data}"

def wrapStream (source : Error) : Error := .subscribeStream source

def takeMatch : List Frame → Option (Except Error MatchEvent) × List Frame
  | [] => (none, [])
  | frame :: pending =>
    if frame.event ≠ "match" then takeMatch pending
    else (some (decodeMatch deps frame.data), pending)

namespace Subscription

/-- Take the next `match` frame off the queue. Frames before it are dropped. -/
def tryTakeMatch (sub : Subscription) : Option (Except Error MatchEvent) × Subscription :=
  ((takeMatch deps sub.pending).1, { sub with pending := (takeMatch deps sub.pending).2 })

/-- The loop of `pollNext`. A round that goes on has read a chunk or the end of the body. -/
def pollLoop : ℕ → Subscription → Poll (Option (Except Error MatchEvent)) × Subscription
  | 0, sub => (.pending, sub)
  | fuel + 1, sub =>
    match sub.tryTakeMatch deps with
    | (some ev, sub) => (.ready (some (ev.mapError wrapStream)), sub)
    | (none, sub) =>
      if sub.finished then (.ready none, sub)
      else
        match sub.body.pollNext with
        | (.pending, body) => (.pending, { sub with body })
        | (.ready (some (.ok chunk)), body) =>
          match sub.scanner.feed chunk with
          | (.ok frames, scanner) =>
            pollLoop fuel { sub with body, scanner, pending := sub.pending ++ frames }
          | (.error (.frameTooLarge n), scanner) =>
            (.ready (some (.error (wrapStream (.malformedSse s!"frame exceeds {n} bytes")))),
              { sub with body, scanner, finished := true, closedWithError := true })
        | (.ready (some (.error e)), body) =>
          (.ready (some (.error (wrapStream (.transport e)))),
            { sub with body, finished := true, closedWithError := true })
        | (.ready none, body) =>
          match sub.scanner.close with
          | (.ok frame, scanner) =>
            pollLoop fuel
              { sub with body, scanner, finished := true, pending := sub.pending ++ frame.toList }
          | (.error (.frameTooLarge n), scanner) =>
            (.ready (some (.error (wrapStream (.malformedSse s!"frame exceeds {n} bytes")))),
              { sub with body, scanner, finished := true, closedWithError := true })

def pollNext (sub : Subscription) : Poll (Option (Except Error MatchEvent)) × Subscription :=
  pollLoop deps (sub.body.events.length + 2) sub

end Subscription

end

def Client.subscribe (client : Client) (deps : Dependencies) (network : Network)
    (req : SubscribeRequest) (rounds : ℕ) : Call Subscription :=
  preflighted req.validate
    (mapErr .subscribeSetup
      (runWithRetry client (fun attempt => subscribeOnce deps (network (req.toVec deps) attempt))
        rounds))

end Semantik
