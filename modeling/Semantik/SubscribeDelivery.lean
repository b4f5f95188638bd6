import Semantik.SseChunking
import Semantik.Subscribe

/-!
# Delivery of a subscription

What a scanner yields over the rest of a body is fixed by the two. A subscription in any state
still has to yield its queue and these frames, and each poll hands over the next `match` among
them. The handshake takes the first frame of the whole body and leaves the others to the stream.
-/

namespace Semantik

open PollScript

inductive StreamEnd where
  | tooLarge (max : ℕ)
  | broken (e : ReqwestError)
  | complete
  | waiting
deriving DecidableEq

/-- The frames that the calls of `feed` and `close` yield over a body, up to the first call that
fails, and how this ends. -/
def remaining (fin : BodyEnd) : List BodyEvent → Scanner → List Frame × StreamEnd
  | [], scanner =>
    match fin with
    | .idle => ([], .waiting)
    | .error e => ([], .broken e)
    | .eof =>
      match scanner.close with
      | (.ok frame, _) => (frame.toList, .complete)
      | (.error (.frameTooLarge n), _) => ([], .tooLarge n)
  | .pending :: events, scanner => remaining fin events scanner
  | .chunk bytes :: events, scanner =>
    match scanner.feed bytes with
    | (.ok frames, scanner') =>
      (frames ++ (remaining fin events scanner').1, (remaining fin events scanner').2)
    | (.error (.frameTooLarge n), _) => ([], .tooLarge n)

theorem remaining_chunk {fin : BodyEnd} {events : List BodyEvent} {bytes : List UInt8}
    {frames : List Frame} {s s' : Scanner} (h : s.feed bytes = (.ok frames, s')) :
    remaining fin (.chunk bytes :: events) s =
      (frames ++ (remaining fin events s').1, (remaining fin events s').2) := by
  rw [remaining, h]

theorem remaining_chunk_error {fin : BodyEnd} {events : List BodyEvent} {bytes : List UInt8}
    {n : ℕ} {s s' : Scanner} (h : s.feed bytes = (.error (.frameTooLarge n), s')) :
    remaining fin (.chunk bytes :: events) s = ([], .tooLarge n) := by
  rw [remaining, h]

def Body.frames (body : Body) : List Frame × StreamEnd := remaining body.fin body.events .new

def pendingsOf (events : List BodyEvent) : ℕ := events.countP (· = .pending)

/-- A failure is one more item. -/
def StreamEnd.ending : StreamEnd → Ending (Except Error MatchEvent)
  | tooLarge n => .failing (.error (.subscribeStream (.malformedSse s!"frame exceeds {n} bytes")))
  | broken e => .failing (.error (.subscribeStream (.transport e)))
  | complete => .closing
  | waiting => .idle

theorem ending_ne_ended (e : StreamEnd) : e.ending ≠ .ended := by
  cases e <;> simp [StreamEnd.ending]

variable (deps : Dependencies)

def matchItem (data : String) : Except Error MatchEvent :=
  match deps.matchEvent data with
  | .ok ev => .ok ev
  | .error e =>
    .error (.subscribeStream (.malformedSse s!"decode match frame: {e}; payload={data}"))

def matchesOf (frames : List Frame) : List (Except Error MatchEvent) :=
  (frames.filter (·.event = "match")).map fun frame => matchItem deps frame.data

theorem mapError_decodeMatch (data : String) :
    (decodeMatch deps data).mapError wrapStream = matchItem deps data := by
  unfold decodeMatch matchItem
  cases deps.matchEvent data with
  | ok ev => rfl
  | error e => rfl

theorem matchesOf_append (frames frames' : List Frame) :
    matchesOf deps (frames ++ frames') = matchesOf deps frames ++ matchesOf deps frames' := by
  simp [matchesOf]

theorem takeMatch_cases (pending : List Frame) :
    (takeMatch deps pending = (none, []) ∧ matchesOf deps pending = []) ∨
      ∃ ev rest, takeMatch deps pending = (some ev, rest) ∧
        matchesOf deps pending = ev.mapError wrapStream :: matchesOf deps rest := by
  induction pending with
  | nil => exact .inl ⟨rfl, rfl⟩
  | cons frame pending ih =>
      by_cases h : frame.event = "match"
      · refine .inr ⟨decodeMatch deps frame.data, pending, by simp [takeMatch, h], ?_⟩
        rw [mapError_decodeMatch]
        simp [matchesOf, h]
      · have htake : takeMatch deps (frame :: pending) = takeMatch deps pending := by
          simp [takeMatch, h]
        have hmatches : matchesOf deps (frame :: pending) = matchesOf deps pending := by
          simp [matchesOf, h]
        rwa [htake, hmatches]

namespace Subscription

def script (sub : Subscription) : Script (Except Error MatchEvent) :=
  if sub.finished then ⟨matchesOf deps sub.pending, .ended, pendingsOf sub.body.events⟩
  else
    ⟨matchesOf deps (sub.pending ++ (remaining sub.body.fin sub.body.events sub.scanner).1),
      (remaining sub.body.fin sub.body.events sub.scanner).2.ending, pendingsOf sub.body.events⟩

section

variable (id : String) (requestId : Option String) (scanner : Scanner) (pending : List Frame)
  (events : List BodyEvent) (fin : BodyEnd) (closedWithError : Bool)

theorem script_finished (body : Body) :
    script deps ⟨id, requestId, body, scanner, pending, true, closedWithError⟩ =
      ⟨matchesOf deps pending, .ended, pendingsOf body.events⟩ := rfl

theorem script_unfinished :
    script deps ⟨id, requestId, ⟨events, fin⟩, scanner, pending, false, closedWithError⟩ =
      ⟨matchesOf deps (pending ++ (remaining fin events scanner).1),
        (remaining fin events scanner).2.ending, pendingsOf events⟩ := rfl

end

def roundsLeft (sub : Subscription) : ℕ := if sub.finished then 1 else sub.body.events.length + 2

/-- With a `match` in the queue, the poll hands it over. -/
theorem next_of_match {sub : Subscription} {ev : Except Error MatchEvent} {rest : List Frame}
    (h : matchesOf deps sub.pending = ev.mapError wrapStream :: matchesOf deps rest) :
    Next (sub.script deps) (.ready (some (ev.mapError wrapStream)))
      (script deps { sub with pending := rest }) := by
  unfold script
  dsimp only
  split_ifs
  · rw [h]
    exact .item _ _ _ le_rfl
  · rw [matchesOf_append, matchesOf_append, h, List.cons_append]
    exact .item _ _ _ le_rfl

/-- Without one, the queue does not matter. -/
theorem script_of_no_match {sub : Subscription} (h : matchesOf deps sub.pending = []) :
    sub.script deps = script deps { sub with pending := [] } := by
  unfold script
  dsimp only
  rw [matchesOf_append, h, List.nil_append, List.nil_append]
  rfl

theorem next_pollLoop {fuel : ℕ} (sub : Subscription) (h : sub.roundsLeft ≤ fuel) :
    Next (sub.script deps) (pollLoop deps fuel sub).1 (script deps (pollLoop deps fuel sub).2) := by
  induction fuel generalizing sub with
  | zero =>
      unfold roundsLeft at h
      split_ifs at h <;> omega
  | succ fuel ih =>
      obtain ⟨htake, hmatches⟩ | ⟨ev, rest, htake, hmatches⟩ := takeMatch_cases deps sub.pending
      swap
      · simp only [pollLoop, tryTakeMatch, htake]
        exact next_of_match deps hmatches
      rw [script_of_no_match deps hmatches]
      simp only [pollLoop, tryTakeMatch, htake]
      obtain ⟨id, requestId, ⟨events, fin⟩, scanner, pending, finished, closedWithError⟩ := sub
      cases finished with
      | true => exact .ended _
      | false =>
          have hle : events.length + 1 ≤ fuel := Nat.le_of_succ_le_succ h
          simp only [Bool.false_eq_true, if_false, script_unfinished]
          cases events with
          | nil =>
              cases fin with
              | idle => exact .idle _
              | error e => exact .fail _ le_rfl
              | eof =>
                  rcases hclose : scanner.close with ⟨⟨n⟩ | frame, scanner'⟩
                  · simp only [Body.pollNext, hclose, remaining, script_finished]
                    exact .fail _ le_rfl
                  · have hnext := ih ⟨id, requestId, ⟨[], .eof⟩, scanner', frame.toList, true,
                      closedWithError⟩ (by simp only [roundsLeft, if_true]; omega)
                    simp only [Body.pollNext, hclose, remaining, List.nil_append]
                    exact hnext.of_ended
          | cons event events =>
              cases event with
              | pending =>
                  simp only [Body.pollNext, script_unfinished]
                  exact .wait _ (by simp [pendingsOf]) (ending_ne_ended _)
              | chunk bytes =>
                  rcases hfeed : scanner.feed bytes with ⟨⟨n⟩ | frames, scanner'⟩
                  · simp only [Body.pollNext, hfeed, remaining_chunk_error hfeed, script_finished]
                    exact .fail _ le_rfl
                  · have hnext := ih ⟨id, requestId, ⟨events, fin⟩, scanner', frames, false,
                      closedWithError⟩ hle
                    simp only [Body.pollNext, hfeed, remaining_chunk hfeed, List.nil_append]
                    exact hnext

/-- Every subscription plays its script. -/
theorem plays (sub : Subscription) : Plays (pollNext deps) sub (sub.script deps) := by
  have hsim : ∀ sub : Subscription,
      Next (sub.script deps) (sub.pollNext deps).1 ((sub.pollNext deps).2.script deps) := by
    intro sub
    apply next_pollLoop
    unfold roundsLeft
    split_ifs <;> omega
  exact PollScript.plays hsim sub

end Subscription

theorem remaining_of_closed {scanner : Scanner} (h : scanner.closed = true) :
    remaining .eof [] scanner = ([], .complete) := by
  simp only [remaining, Scanner.close, h, if_true, Option.toList_none]

/-- The handshake takes the first frame, and leaves the others and the ending to the stream. -/
theorem remaining_of_firstFrame {fin : BodyEnd} {events : List BodyEvent} {scanner : Scanner}
    {pending : List Frame} {h : Handshake}
    (hfirst : firstFrame fin events scanner pending = some (.ok h)) :
    pending ++ (remaining fin events scanner).1 =
        h.first :: (h.pending ++ (remaining h.body.fin h.body.events h.scanner).1) ∧
      (remaining fin events scanner).2 = (remaining h.body.fin h.body.events h.scanner).2 ∧
      pendingsOf h.body.events ≤ pendingsOf events := by
  fun_induction firstFrame fin events scanner pending with
  | case1 events scanner frame pending =>
      cases hfirst
      exact ⟨rfl, rfl, le_rfl⟩
  | case2 events scanner ih =>
      obtain ⟨hframes, hend, hle⟩ := ih hfirst
      exact ⟨hframes, hend, hle.trans (by simp [pendingsOf])⟩
  | case3 events scanner bytes frames scanner' hfeed ih =>
      obtain ⟨hframes, hend, hle⟩ := ih hfirst
      rw [remaining_chunk hfeed, List.nil_append]
      exact ⟨hframes, hend, hle.trans (by simp [pendingsOf])⟩
  | case7 scanner hfin frame scanner' hclose =>
      cases hfirst
      have hclosed : scanner'.closed = true := by
        have := scanner.closed_close
        rwa [hclose] at this
      rw [remaining_of_closed hclosed]
      subst hfin
      simp only [remaining, hclose]
      exact ⟨rfl, trivial, le_rfl⟩
  | _ => cases hfirst

theorem startStream_eq_ok {requestId : Option String} {h : Handshake} {sub : Subscription}
    (hstart : startStream deps requestId h = some (.ok sub)) :
    h.first.event = "subscribed" ∧ deps.subscribedEvent h.first.data = .ok ⟨sub.id⟩ ∧
      sub = ⟨sub.id, requestId, h.body, h.scanner, h.pending, false, false⟩ := by
  unfold startStream at hstart
  split_ifs at hstart with hevent
  · cases hstart
  split at hstart
  · cases hstart
  · next payload hpayload =>
    split_ifs at hstart
    · cases hstart
    · cases hstart
      exact ⟨not_not.1 hevent, hpayload, rfl⟩

theorem subscribeOnce_eq_ok {exchange : Exchange} {sub : Subscription}
    (h : subscribeOnce deps exchange = some (.ok sub)) :
    ∃ resp hs, exchange.send = some (.ok resp) ∧
      firstFrame resp.body.fin resp.body.events .new [] = some (.ok hs) ∧
      startStream deps (requestIdFromHeaders resp.headers) hs = some (.ok sub) := by
  obtain ⟨resp, hsend, h⟩ := (Future.andThen_eq_ok_iff _).1 h
  have hsend := Future.mapErr_eq_ok_iff.1 hsend
  dsimp only at h
  split_ifs at h with hstatus htype
  · obtain ⟨hs, hfirst, hstart⟩ := (Future.andThen_eq_ok_iff _).1 h
    exact ⟨resp, hs, hsend, hfirst, hstart⟩
  · cases h
  · obtain ⟨_, _, h⟩ := (Future.andThen_eq_ok_iff _).1 h
    cases h

/-- The stream that a handshake leaves plays the frames after the first one. -/
theorem plays_of_handshake {body : Body} {hs : Handshake} {requestId : Option String}
    {sub : Subscription} (hfirst : firstFrame body.fin body.events .new [] = some (.ok hs))
    (hstart : startStream deps requestId hs = some (.ok sub)) :
    ∃ rest, body.frames.1 = hs.first :: rest ∧ Plays (Subscription.pollNext deps) sub
      ⟨matchesOf deps rest, body.frames.2.ending, pendingsOf body.events⟩ := by
  obtain ⟨-, -, hsub⟩ := startStream_eq_ok deps hstart
  obtain ⟨hframes, hend, hle⟩ := remaining_of_firstFrame hfirst
  have hplays := sub.plays deps
  rw [hsub, Subscription.script_unfinished, ← hend, ← hsub] at hplays
  exact ⟨_, hframes, hplays.of_le hle⟩

/-- The id of a subscription is that of the first frame of the body. Its items are, for each `match`
frame among the others, the decoded payload or an error of the stream, and at last one more error
if the body broke or had an oversized frame. -/
theorem subscription_delivers {exchange : Exchange} {sub : Subscription}
    (h : subscribeOnce deps exchange = some (.ok sub)) :
    ∃ resp first rest, exchange.send = some (.ok resp) ∧ resp.body.frames.1 = first :: rest ∧
      first.event = "subscribed" ∧ deps.subscribedEvent first.data = .ok ⟨sub.id⟩ ∧
      Plays (Subscription.pollNext deps) sub
        ⟨matchesOf deps rest, resp.body.frames.2.ending, pendingsOf resp.body.events⟩ := by
  obtain ⟨resp, hs, hsend, hfirst, hstart⟩ := subscribeOnce_eq_ok deps h
  obtain ⟨hevent, hpayload, -⟩ := startStream_eq_ok deps hstart
  obtain ⟨rest, hframes, hplays⟩ := plays_of_handshake deps hfirst hstart
  exact ⟨resp, hs.first, rest, hsend, hframes, hevent, hpayload, hplays⟩

def streamResponse (body : Body) : Response where
  status := 200
  headers name := if name = "content-type" then some ⟨some mimeSse⟩ else none
  body := body

def sampleStream : List UInt8 :=
  asBytes "event: subscribed\ndata: \x7b\"subscription_id\":\"s\"\x7d\n\n" ++
    asBytes "event: match\ndata: \x7b\"message_id\":\"m\"\x7d\n\n"

def sampleExchange : Exchange where
  send := some (.ok (streamResponse ⟨[.pending, .chunk sampleStream], .eof⟩))
  now := 0

theorem sampleExchange_delivers :
    ∃ sub resp first rest, subscribeOnce .sample sampleExchange = some (.ok sub) ∧
      sampleExchange.send = some (.ok resp) ∧ resp.body.frames.1 = first :: rest ∧
      first.event = "subscribed" ∧ Dependencies.sample.subscribedEvent first.data = .ok ⟨sub.id⟩ ∧
      Plays (Subscription.pollNext .sample) sub
        ⟨matchesOf .sample rest, resp.body.frames.2.ending, pendingsOf resp.body.events⟩ := by
  have h : subscribeOnce .sample sampleExchange =
      some (.ok ⟨"s", none, ⟨[], .eof⟩, .new, [⟨"match", "\x7b\"message_id\":\"m\"\x7d"⟩], false,
        false⟩) := by
    rfl
  obtain ⟨resp, first, rest, hdelivers⟩ := subscription_delivers .sample h
  exact ⟨_, resp, first, rest, h, hdelivers⟩

end Semantik
