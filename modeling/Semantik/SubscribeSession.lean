import Semantik.MalformedMeaning
import Semantik.NetworkCutting
import Semantik.SseReading

/-!
# Sessions with a server

A server that refuses the first attempts for the moment and then writes a `subscribed` frame and
others is heard in full: the call returns, and the stream yields the matches that were written, in
order, and ends as the body does. When the connection breaks, what was heard is a beginning of what
would have been heard, and a stream that ends early can be wrong about its last item only.
-/

namespace Semantik

open PollScript RetryLoop Scanner

def BodyEnd.streamEnd : BodyEnd → StreamEnd
  | .eof => .complete
  | .error e => .broken e
  | .idle => .waiting

def TransientRefusal (deps : Dependencies) (x : Exchange) : Prop :=
  ∃ resp bytes, x.send = some (.ok resp) ∧ ¬ isSuccess resp.status ∧
    resp.body.bytes = some (.ok bytes) ∧
    ((∃ s ∈ ErrorCode.transientNames, errorString deps bytes = some s) ∨
      errorString deps bytes = none ∧ resp.status = 503)

/-- The response opens a stream of these frames, however it writes and sends them. While the body
goes on, a last `\r` may be half of a terminator. -/
structure Response.Serves (resp : Response) (frames : List WrittenFrame) : Prop where
  opens : resp.OpensStream
  stream : (chunksOf resp.body.events).flatten = encode frames
  last : resp.body.fin = .eof ∨ (encode frames).getLast? ≠ some cr

/-- Frames that can be told apart, each within the cap together with the silent ones before it, and
in none of which the first of several data lines is empty. -/
structure Readable (frames : List WrittenFrame) : Prop extends WellWritten frames where
  size : ¬ OversizedBurst (frames.map WrittenFrame.lines)
  joinable : ∀ f ∈ frames, f.Joinable

theorem openLines_of_last {frames : List WrittenFrame} (h : WellWritten frames)
    (hlast : (encode frames).getLast? ≠ some cr) :
    openLines (encode frames) = (encodedLines frames, []) := by
  rw [openLines, ← LineSplit.split_eq_splitOpen_of_last cr_ne_lf hlast]
  exact h.splitLines

/-- The body of such a response yields exactly the frames that were written. -/
theorem Response.Serves.frames_eq {resp : Response} {frames : List WrittenFrame}
    (h : resp.Serves frames) (hread : Readable frames) :
    resp.body.frames = (frames.filterMap WrittenFrame.frame, resp.body.fin.streamEnd) := by
  have hlines : allLines (encode frames) = encodedLines frames := by
    rw [← h.stream]
    exact allLines_encode hread.toWellWritten ⟨chunksOf resp.body.events, h.stream⟩
  have hstop := (stop_encodedLines_iff hread.frame).2 hread.size
  obtain ⟨hout, hidle⟩ := consumeLines_encodedLines hread.frame hread.size
  rw [(emitted_eq_frame_iff hread.frame).2 hread.joinable] at hout
  have hopen : (consumeLines new (openLines (encode frames)).1).stop = none := by
    rw [← hlines, allLines_eq] at hstop
    by_contra hne
    obtain ⟨e, he⟩ := Option.ne_none_iff_exists'.1 hne
    rw [consumeLines_append_of_stop he, he] at hstop
    cases hstop
  have hlossless : (feedAll new (chunksOf resp.body.events)).out =
      completeFrames (chunksOf resp.body.events).flatten :=
    feedAll_out (by rw [Trips, h.stream, hopen]; exact not_not.2 rfl)
  have hcomplete : resp.body.fin ≠ .eof →
      completeFrames (encode frames) = frames.filterMap WrittenFrame.frame := by
    intro hfin
    rw [completeFrames, openLines_of_last hread.toWellWritten (h.last.resolve_left hfin), hout]
  have hreference : referenceFrames (encode frames) = frames.filterMap WrittenFrame.frame := by
    have hflush : flush (consumeLines new (encodedLines frames)).state = none := if_pos hidle
    rw [referenceFrames, hlines, hout, hflush]
    exact List.append_nil _
  rw [frames_eq_reference hlossless, h.stream, reference.eq_def, hopen]
  cases hfin : resp.body.fin with
  | eof =>
      dsimp only
      rw [hlines, hstop, hreference]
      rfl
  | error e =>
      dsimp only
      rw [hcomplete (by simp [hfin])]
      rfl
  | idle =>
      dsimp only
      rw [hcomplete (by simp [hfin])]
      rfl

section

variable {deps : Dependencies}

theorem TransientRefusal.subscribeOnce_eq {x : Exchange} (h : TransientRefusal deps x) :
    ∃ err, subscribeOnce deps x = some (.error err) ∧ err.IsTransient := by
  obtain ⟨resp, bytes, hsend, hstatus, hbytes, hcode⟩ := h
  refine ⟨decodeErrorResponse deps resp.status resp.headers bytes x.now, ?_,
    (isTransient_decodeErrorResponse _ _ _ _ _).2 hcode⟩
  simp only [subscribeOnce, sendRaw, hsend, Future.mapErr, Option.map_some, Except.mapError,
    Future.andThen_ok]
  rw [if_pos hstatus, hbytes]
  rfl

theorem phase_mapErr_ok {α : Type} {call : Call α} {a : α} (h : call.phase = .returned (.ok a))
    (f : Error → Error) : mapErr f call = call := by
  unfold mapErr
  rw [h]

/-- With a budget for the refusals before it, an attempt that succeeds ends the loop. -/
theorem endsLoop_of_refusals {α : Type} {n k : UInt32} (hk : k ≤ n)
    {f : UInt32 → Future (Except Error α)} {a : α}
    (hrefused : ∀ i < k, ∃ err, f i = some (.error err) ∧ err.IsTransient)
    (hok : f k = some (.ok a)) : EndsLoop (.withBudget n) f k where
  retried i hi := by
    obtain ⟨err, herr, htransient⟩ := hrefused i hi
    have hlt : i < n := UInt32.lt_of_lt_of_le hi hk
    exact ⟨err, _, herr, (TransientRetry.shouldRetry_eq_some_iff _ _ _ _).2 ⟨hlt, htransient, rfl⟩⟩
  declined err herr := by
    rw [hok] at herr
    cases herr

end

/-- A server that refuses the first `k` attempts of a call, and answers the next one with frames of
which the first opens a subscription. -/
structure Session (deps : Dependencies) (network : Network) (req : SubscribeRequest) (k : UInt32)
    (resp : Response) (frames : List WrittenFrame) (first : Frame) (rest : List Frame)
    (id : String) : Prop where
  valid : req.validate = .ok ()
  refused : ∀ i < k, TransientRefusal deps (network (req.toVec deps) i)
  send : (network (req.toVec deps) k).send = some (.ok resp)
  serves : resp.Serves frames
  readable : Readable frames
  written : frames.filterMap WrittenFrame.frame = first :: rest
  opens : Opens deps first id

/-- Within the budget the call returns a subscription with the id and the request id of the server.
For each match that was written after the first frame its stream yields the payload, or an error if
this does not decode, in order. -/
theorem session_delivers {n k : UInt32} (hk : k ≤ n) {deps : Dependencies} {network : Network}
    {req : SubscribeRequest} {resp : Response} {frames : List WrittenFrame} {first : Frame}
    {rest : List Frame} {id : String} (h : Session deps network req k resp frames first rest id)
    {rounds : ℕ} (hrounds : k.toNat < rounds) :
    ∃ sub, let call := Client.subscribe (.withBudget n) deps network req rounds
      call.phase = .returned (.ok sub) ∧ call.calls.getLast? = some k ∧ sub.id = id ∧
      sub.requestId = requestIdFromHeaders resp.headers ∧
      Plays (Subscription.pollNext deps) sub
        ⟨matchesOf deps rest, resp.body.fin.streamEnd.ending, pendingsOf resp.body.events⟩ := by
  have hframes := h.serves.frames_eq h.readable
  rw [h.written] at hframes
  have hfirst : [] ++ resp.body.frames.1 = first :: rest := by rw [hframes]; rfl
  obtain ⟨hs, hhandshake, rfl⟩ := exists_firstFrame [] hfirst
  obtain ⟨sub, hstart, hid⟩ := startStream_of_opens deps (requestIdFromHeaders resp.headers) h.opens
  obtain ⟨-, -, hsub⟩ := startStream_eq_ok deps hstart
  obtain ⟨rest', hframes', hplays⟩ := plays_of_handshake deps hhandshake hstart
  rw [hframes] at hframes' hplays
  obtain ⟨-, rfl⟩ := List.cons_eq_cons.1 hframes'
  have honce : subscribeOnce deps (network (req.toVec deps) k) = some (.ok sub) := by
    rw [subscribeOnce_of_opensStream deps h.send h.serves.opens, hhandshake]
    exact hstart
  have hends := endsLoop_of_refusals hk (fun i hi => (h.refused i hi).subscribeOnce_eq) honce
  obtain ⟨hphase, hlast⟩ := hends.returned honce hrounds
  have hcall : Client.subscribe (.withBudget n) deps network req rounds =
      runWithRetry (.withBudget n) (fun k => subscribeOnce deps (network (req.toVec deps) k))
        rounds := by
    rw [Client.subscribe, h.valid, preflighted, phase_mapErr_ok hphase]
  refine ⟨sub, ?_⟩
  dsimp only
  rw [hcall]
  exact ⟨hphase, hlast, hid, by rw [hsub], hplays⟩

def sampleFrames : List WrittenFrame :=
  [⟨[⟨"event", "subscribed", .spaced, .lf⟩,
      ⟨"data", "\x7b\"subscription_id\":\"s\"\x7d", .tight, .cr⟩, ⟨"", "", .spaced, .lf⟩], .lf⟩,
    ⟨[⟨"event", "match", .tight, .crlf⟩, ⟨"data", "\x7b\"message_id\":\"m\"\x7d", .spaced, .lf⟩],
      .crlf⟩]

def busyNetwork : Network := fun _ k =>
  if k = 0 then
    received 429 (fun _ => none) [.chunk (asBytes "\x7b\"error\":\"backpressure\"\x7d")] 0
  else ⟨some (.ok (streamResponse ⟨[.pending, .chunk (encode sampleFrames)], .idle⟩)), 0⟩

theorem session_delivers_busy : ∃ sub,
    let call := Client.subscribe (.withBudget 5) .sample busyNetwork sampleSubscribe 2
    call.phase = .returned (.ok sub) ∧ call.calls.getLast? = some 1 ∧ sub.id = "s" ∧
    sub.requestId = none ∧ Plays (Subscription.pollNext .sample) sub
      ⟨matchesOf .sample [⟨"match", "\x7b\"message_id\":\"m\"\x7d"⟩], .idle, 1⟩ := by
  have hread : Readable sampleFrames := ⟨⟨by decide, by decide⟩, by decide, by decide⟩
  have h : Session .sample busyNetwork sampleSubscribe 1
      (streamResponse ⟨[.pending, .chunk (encode sampleFrames)], .idle⟩) sampleFrames
      ⟨"subscribed", "\x7b\"subscription_id\":\"s\"\x7d"⟩
      [⟨"match", "\x7b\"message_id\":\"m\"\x7d"⟩] "s" := by
    refine ⟨rfl, ?_, rfl, ⟨⟨by decide, by decide⟩, ?_, .inr (by decide)⟩, hread, by rfl, by rfl, by rfl, by decide⟩
    · intro i hi
      obtain rfl : i = 0 := by
        rw [UInt32.lt_iff_toNat_lt] at hi
        exact UInt32.toNat_inj.1 (Nat.lt_one_iff.1 hi)
      exact ⟨_, _, rfl, by decide, rfl, .inl ⟨"backpressure", by decide, by decide⟩⟩
    · simp [streamResponse, chunksOf]
  exact session_delivers (by decide) h (by decide)

end Semantik
