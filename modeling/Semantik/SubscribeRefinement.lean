import Semantik.SubscribeCutting

/-!
# What a subscription is

Seen from outside, a handshake opens a stream, fails or never ends, and an open stream is its id,
its request id and the script of its matches. This outcome is a function of the frames of the body,
and not of the chunks in which it arrives: the loops of the handshake and of the stream refine it,
for one attempt and for the call with its retries.
-/

namespace Semantik

open PollScript RetryLoop Scanner

/-- An open stream, seen from outside. -/
structure Opened where
  id : String
  requestId : Option String
  script : Script (Except Error MatchEvent)

section

variable (deps : Dependencies)

/-- What the first frame says: the id of the subscription, or why there is none. -/
def opening (first : Frame) : Except Error String :=
  if first.event ≠ "subscribed" then
    .error (.malformedSse
      s!"expected 'subscribed' event, got {debugStr deps.printable first.event}")
  else
    match deps.subscribedEvent first.data with
    | .error e => .error (.malformedSse s!"decode subscribed frame: {e}")
    | .ok sub =>
      if sub.subscriptionId = "" then
        .error (.malformedSse "subscribed frame missing subscription_id")
      else .ok sub.subscriptionId

def firstOf : List Frame × StreamEnd → Future (Except Error Frame)
  | (first :: _, _) => some (.ok first)
  | ([], .tooLarge n) => some (.error (.malformedSse s!"subscribed frame exceeds {n} bytes"))
  | ([], .broken e) => some (.error (.transport e))
  | ([], .complete) => some (.error (.malformedSse "stream closed before subscribed frame"))
  | ([], .waiting) => none

def openedBy (requestId : Option String) (pendings : ℕ) (frames : List Frame × StreamEnd) :
    Future (Except Error Opened) :=
  (firstOf frames).andThen fun first =>
    some ((opening deps first).map fun id =>
      ⟨id, requestId, ⟨matchesOf deps frames.1.tail, frames.2.ending, pendings⟩⟩)

def subscribeOutcome (exchange : Exchange) : Future (Except Error Opened) :=
  (sendRaw exchange).andThen fun resp =>
    if ¬ isSuccess resp.status then
      (resp.body.bytes.mapErr .transport).andThen fun body =>
        some (.error (decodeErrorResponse deps resp.status resp.headers body exchange.now))
    else
      let contentType := ((resp.headers "content-type").bind HeaderValue.toStr).getD ""
      if ¬ isEventStreamContentType contentType then
        some (.error (.malformedSse
          s!"expected {mimeSse}, got {debugStr deps.printable contentType}"))
      else
        openedBy deps (requestIdFromHeaders resp.headers) (pendingsOf resp.body.events)
          resp.body.frames

def Client.subscribeOutcome (client : Client) (network : Network) (req : SubscribeRequest)
    (rounds : ℕ) : Call Opened :=
  preflighted req.validate
    (mapErr .subscribeSetup
      (runWithRetry client
        (fun attempt => Semantik.subscribeOutcome deps (network (req.toVec deps) attempt)) rounds))

/-- The subscription has this id and request id, and plays this script. -/
structure Refines (sub : Subscription) (opened : Opened) : Prop where
  id : sub.id = opened.id
  requestId : sub.requestId = opened.requestId
  plays : Plays (Subscription.pollNext deps) sub opened.script

theorem firstFrame_first (fin : BodyEnd) (events : List BodyEvent) (scanner : Scanner)
    (pending : List Frame) : (firstFrame fin events scanner pending).map (Except.map Handshake.first) =
      firstOf (pending ++ (remaining fin events scanner).1, (remaining fin events scanner).2) := by
  fun_induction firstFrame fin events scanner pending with
  | case1 events scanner frame pending => rfl
  | case2 events scanner ih => exact ih
  | case3 events scanner bytes frames scanner' hfeed ih =>
      rw [remaining_chunk hfeed]
      exact ih
  | case4 events scanner bytes n scanner' hfeed =>
      rw [remaining_chunk_error hfeed]
      rfl
  | _ => simp_all [remaining, firstOf, Except.map]

theorem startStream_id (requestId : Option String) (hs : Handshake) :
    (startStream deps requestId hs).map (Except.map Subscription.id) =
      some (opening deps hs.first) := by
  unfold startStream opening
  split_ifs
  · rfl
  · cases deps.subscribedEvent hs.first.data with
    | error e => rfl
    | ok sub =>
        dsimp only
        split_ifs <;> rfl

/-- The loop of the handshake and the poll loop refine the stream that the frames of the body
open. -/
theorem handshake_alike (requestId : Option String) (body : Body) :
    Alike (Refines deps)
      ((firstFrame body.fin body.events .new []).andThen (startStream deps requestId))
      (openedBy deps requestId (pendingsOf body.events) body.frames) := by
  have hfirst := firstFrame_first body.fin body.events .new []
  rw [List.nil_append] at hfirst
  change _ = firstOf body.frames at hfirst
  rw [openedBy]
  cases hhandshake : firstFrame body.fin body.events .new [] with
  | none =>
      rw [hhandshake] at hfirst
      rw [← hfirst]
      exact .never
  | some r =>
      rw [hhandshake] at hfirst
      rw [← hfirst]
      cases r with
      | error e => exact .error e
      | ok hs =>
          have hid := startStream_id deps requestId hs
          simp only [Option.map_some, Except.map, Future.andThen_ok]
          cases hstart : startStream deps requestId hs with
          | none =>
              rw [hstart] at hid
              cases hid
          | some r =>
              rw [hstart, Option.map_some, Option.some.injEq] at hid
              rw [← hid]
              cases r with
              | error e => exact .error e
              | ok sub =>
                  obtain ⟨-, -, hsub⟩ := startStream_eq_ok deps hstart
                  obtain ⟨rest, hframes, hplays⟩ := plays_of_handshake deps hhandshake hstart
                  have hrequestId : sub.requestId = requestId := by rw [hsub]
                  refine .ok ⟨rfl, hrequestId, ?_⟩
                  rw [hframes]
                  exact hplays

theorem subscribeOnce_alike (exchange : Exchange) :
    Alike (Refines deps) (subscribeOnce deps exchange) (subscribeOutcome deps exchange) := by
  unfold subscribeOnce subscribeOutcome
  match sendRaw exchange with
  | none => exact .never
  | some (.error e) => exact .error e
  | some (.ok resp) =>
      simp only [Future.andThen_ok]
      split_ifs
      · exact handshake_alike deps _ _
      · exact .error _
      · match resp.body.bytes with
        | none => exact .never
        | some (.error e) => exact .error _
        | some (.ok bytes) => exact .error _

end

section

variable {α β : Type} {R : α → β → Prop}

theorem traceAlike_mapErr {call : Call α} {call' : Call β} (h : TraceAlike R call call')
    (f : Error → Error) : TraceAlike R (mapErr f call) (mapErr f call') := by
  obtain ⟨calls, sleeps, phase⟩ := call
  obtain ⟨calls', sleeps', phase'⟩ := call'
  obtain ⟨rfl, rfl, hphase⟩ := h
  cases hphase with
  | ready k => exact ⟨rfl, rfl, .ready k⟩
  | waiting => exact ⟨rfl, rfl, .waiting⟩
  | failed e => exact ⟨rfl, rfl, .failed (f e)⟩
  | returned h => exact ⟨rfl, rfl, .returned h⟩
  | overflowed => exact ⟨rfl, rfl, .overflowed⟩

theorem traceAlike_preflighted {call : Call α} {call' : Call β} (check : Except Error Unit)
    (h : TraceAlike R call call') : TraceAlike R (preflighted check call) (preflighted check call') := by
  match check with
  | .ok () => exact h
  | .error err => exact ⟨rfl, rfl, .failed err⟩

theorem runWithRetry_alike (client : Client) {f : UInt32 → Future (Except Error α)}
    {g : UInt32 → Future (Except Error β)} (h : ∀ attempt, Alike R (f attempt) (g attempt))
    (rounds : ℕ) : TraceAlike R (runWithRetry client f rounds) (runWithRetry client g rounds) :=
  RetryLoop.run_alike (retryLoop client.retry f) h rounds

end

/-- Under every policy and against every network, a subscribe call makes the attempts and the
sleeps of its outcome, and returns its error or a subscription that refines its stream. -/
theorem subscribe_refines (client : Client) (deps : Dependencies) (network : Network)
    (req : SubscribeRequest) (rounds : ℕ) :
    TraceAlike (Refines deps) (client.subscribe deps network req rounds)
      (client.subscribeOutcome deps network req rounds) := by
  apply traceAlike_preflighted
  apply traceAlike_mapErr
  exact runWithRetry_alike client (fun _ => subscribeOnce_alike deps _) rounds

end Semantik
