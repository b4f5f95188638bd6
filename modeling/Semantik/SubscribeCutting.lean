import Semantik.SubscribeDelivery

/-!
# Oversized frames and the cutting of a stream

The frames before an oversized line are fixed by the bytes of the stream. The scanner yields them
under every cutting but those in which the chunk that brings the oversized line also completes a
frame before it: the call that fails on the line drops the frames it has already collected.
-/

namespace Semantik

open PollScript

namespace Scanner

def completeFrames (stream : List UInt8) : List Frame :=
  (consumeLines new (openLines stream).1).out

def Trips (stream : List UInt8) : Prop := (consumeLines new (openLines stream).1).stop ≠ none

/-- Some chunk brings the first oversized line and completes a frame before it. -/
def SharesChunk (chunks : List (List UInt8)) : Prop :=
  ∃ before chunk after, chunks = before ++ chunk :: after ∧ ¬ Trips before.flatten ∧
    Trips (before.flatten ++ chunk) ∧
    (completeFrames before.flatten).length < (completeFrames (before.flatten ++ chunk)).length

theorem consumeLines_openLines_of_trips {s : List UInt8} (h : Trips s) (t : List UInt8) :
    consumeLines new (openLines (s ++ t)).1 = consumeLines new (openLines s).1 := by
  obtain ⟨e, he⟩ := Option.ne_none_iff_exists'.1 h
  rw [openLines_append]
  exact consumeLines_append_of_stop he _

theorem completeFrames_isPrefix (s t : List UInt8) :
    completeFrames s <+: completeFrames (s ++ t) := by
  rw [completeFrames, completeFrames, openLines_append]
  exact Transducer.run_out_isPrefix _ _ _

theorem feedAll_out {chunks : List (List UInt8)} (h : ¬ Trips chunks.flatten) :
    (feedAll new chunks).out = completeFrames chunks.flatten :=
  (feedAll_of_stop ((feedAll_stop chunks).trans (not_not.1 h))).1

/-- When a chunk trips the scanner, the frames of the chunks before it are all that is yielded. -/
theorem feedAll_out_of_trips {before after : List (List UInt8)} {chunk : List UInt8}
    (hbefore : ¬ Trips before.flatten) (hchunk : Trips (before.flatten ++ chunk)) :
    (feedAll new (before ++ chunk :: after)).out = completeFrames before.flatten := by
  have hstop : (feedAll new before).stop = none := (feedAll_stop before).trans (not_not.1 hbefore)
  have htrips : (feedAll new (before ++ [chunk])).stop ≠ none := by
    have hflat : (before ++ [chunk]).flatten = before.flatten ++ chunk := by simp
    rw [feedAll_stop, hflat]
    exact hchunk
  rw [← feedAll_out hbefore, feedAll, feedAll, Transducer.run_append hstop]
  rw [feedAll, Transducer.run_append hstop] at htrips
  rcases hfeed : feed (Transducer.run feed new before).state chunk with ⟨e | frames, s⟩
  · rw [Transducer.run_cons_error hfeed, List.append_nil]
  · rw [Transducer.run_cons_ok hfeed] at htrips
    exact absurd rfl htrips

theorem exists_tripping_chunk {chunks : List (List UInt8)} (h : Trips chunks.flatten) :
    ∃ before chunk after, chunks = before ++ chunk :: after ∧ ¬ Trips before.flatten ∧
      Trips (before.flatten ++ chunk) := by
  obtain ⟨e, he⟩ := Option.ne_none_iff_exists'.1 h
  rw [← feedAll_stop] at he
  obtain ⟨before, chunk, after, rfl, hbefore, hstep, -⟩ := Transducer.exists_of_run_stop he
  refine ⟨before, chunk, after, rfl, ?_, ?_⟩
  · rw [Trips, ← feedAll_stop, not_not]
    exact hbefore
  · have hflat : before.flatten ++ chunk = (before ++ [chunk]).flatten := by simp
    rw [Trips, hflat, ← feedAll_stop, feedAll, Transducer.run_append hbefore]
    rcases hfeed : feed (Transducer.run feed new before).state chunk with ⟨e' | frames, s⟩
    · rw [Transducer.run_cons_error hfeed]
      simp
    · rw [hfeed] at hstep
      cases hstep

/-- The scanner yields all frames before the first oversized line exactly if that line does not
share its chunk with the end of one of them. -/
theorem feedAll_out_eq_iff (chunks : List (List UInt8)) :
    (feedAll new chunks).out = completeFrames chunks.flatten ↔ ¬ SharesChunk chunks := by
  constructor
  · rintro hout ⟨before, chunk, after, rfl, hbefore, hchunk, hlt⟩
    rw [feedAll_out_of_trips hbefore hchunk] at hout
    have hprefix := completeFrames_isPrefix (before.flatten ++ chunk) after.flatten
    have hflat : (before ++ chunk :: after).flatten = before.flatten ++ chunk ++ after.flatten := by
      simp
    rw [hflat] at hout
    have hle := hprefix.length_le
    rw [← hout] at hle
    omega
  · intro hshares
    by_cases htrips : Trips chunks.flatten
    · obtain ⟨before, chunk, after, rfl, hbefore, hchunk⟩ := exists_tripping_chunk htrips
      have hflat : (before ++ chunk :: after).flatten =
          before.flatten ++ chunk ++ after.flatten := by simp
      have hle : ¬ (completeFrames before.flatten).length <
          (completeFrames (before.flatten ++ chunk)).length := fun hlt =>
        hshares ⟨before, chunk, after, rfl, hbefore, hchunk, hlt⟩
      have hprefix := completeFrames_isPrefix before.flatten chunk
      have hsame : completeFrames (before.flatten ++ chunk ++ after.flatten) =
          completeFrames (before.flatten ++ chunk) :=
        congrArg Transducer.Run.out (consumeLines_openLines_of_trips hchunk after.flatten)
      rw [feedAll_out_of_trips hbefore hchunk, hflat, hsame]
      exact hprefix.eq_of_length_le (not_lt.1 hle)
    · exact feedAll_out htrips

/-- What a subscription should see of a stream, however it was cut: the frames before the first
oversized line and then its failure, or all frames that are complete when the body ends as it
does. -/
def reference (stream : List UInt8) (fin : BodyEnd) : List Frame × StreamEnd :=
  match (consumeLines new (openLines stream).1).stop with
  | some (.frameTooLarge n) => (completeFrames stream, .tooLarge n)
  | none =>
    match fin with
    | .idle => (completeFrames stream, .waiting)
    | .error e => (completeFrames stream, .broken e)
    | .eof =>
      -- the unterminated tail is a last line, and may be oversized too
      match (consumeLines new (allLines stream)).stop with
      | some (.frameTooLarge n) => (completeFrames stream, .tooLarge n)
      | none => (referenceFrames stream, .complete)

theorem remaining_eq (fin : BodyEnd) (events : List BodyEvent) (s : Scanner) :
    remaining fin events s =
      match (feedAll s (chunksOf events)).stop with
      | some (.frameTooLarge n) => ((feedAll s (chunksOf events)).out, .tooLarge n)
      | none => ((feedAll s (chunksOf events)).out ++
          (remaining fin [] (feedAll s (chunksOf events)).state).1,
        (remaining fin [] (feedAll s (chunksOf events)).state).2) := by
  induction events generalizing s with
  | nil => rfl
  | cons event events ih =>
      cases event with
      | pending => exact ih s
      | chunk bytes =>
          rcases hfeed : s.feed bytes with ⟨⟨n⟩ | frames, s'⟩
          · rw [remaining_chunk_error hfeed, chunksOf, feedAll, Transducer.run_cons_error hfeed]
          · rw [remaining_chunk hfeed, ih s', chunksOf, feedAll, feedAll,
              Transducer.run_cons_ok hfeed]
            rcases (Transducer.run feed s' (chunksOf events)).stop with _ | ⟨n⟩
            · simp only [List.append_assoc]
            · rfl

/-- If no frame is lost, the body yields what the stream should. -/
theorem frames_eq_reference {body : Body}
    (h : (feedAll new (chunksOf body.events)).out = completeFrames (chunksOf body.events).flatten) :
    body.frames = reference (chunksOf body.events).flatten body.fin := by
  have hscan := scan_eq (chunksOf body.events)
  rw [Body.frames, remaining_eq, reference.eq_def, ← feedAll_stop, h]
  rw [scan, h] at hscan
  rcases hstop : (feedAll new (chunksOf body.events)).stop with _ | ⟨n⟩
  · rw [hstop] at hscan
    cases hfin : body.fin with
    | idle => simp [remaining]
    | error e => simp [remaining]
    | eof =>
        simp only [remaining] at hscan ⊢
        rcases hclose : (feedAll new (chunksOf body.events)).state.close with ⟨⟨m⟩ | frame, s'⟩
        · rw [hclose] at hscan
          rcases hall : (consumeLines new (allLines (chunksOf body.events).flatten)).stop with
            _ | ⟨k⟩
          · rw [hall] at hscan
            cases hscan
          · rw [hall] at hscan
            cases hscan
            simp
        · rw [hclose] at hscan
          rcases hall : (consumeLines new (allLines (chunksOf body.events).flatten)).stop with
            _ | ⟨k⟩
          · rw [hall] at hscan
            exact congrArg (·, StreamEnd.complete) (Except.ok.inj hscan)
          · rw [hall] at hscan
            cases hscan
  · rfl

end Scanner

open Scanner

def Response.OpensStream (resp : Response) : Prop :=
  isSuccess resp.status = true ∧
    isEventStreamContentType (((resp.headers "content-type").bind HeaderValue.toStr).getD "") = true

variable (deps : Dependencies)

structure Opens (first : Frame) (id : String) : Prop where
  event : first.event = "subscribed"
  payload : deps.subscribedEvent first.data = .ok ⟨id⟩
  nonempty : id ≠ ""

/-- The handshake finds the first frame of the body. -/
theorem exists_firstFrame {fin : BodyEnd} {events : List BodyEvent} {scanner : Scanner}
    (pending : List Frame) {rest : List Frame} {first : Frame}
    (h : pending ++ (remaining fin events scanner).1 = first :: rest) :
    ∃ hs, firstFrame fin events scanner pending = some (.ok hs) ∧ hs.first = first := by
  fun_induction firstFrame fin events scanner pending with
  | case1 events scanner frame pending => exact ⟨_, rfl, (List.cons_eq_cons.1 h).1⟩
  | case2 events scanner ih => exact ih h
  | case3 events scanner bytes frames scanner' hfeed ih =>
      rw [remaining_chunk hfeed] at h
      exact ih h
  | case4 events scanner bytes n scanner' hfeed =>
      rw [remaining_chunk_error hfeed] at h
      cases h
  | case7 scanner hfin frame scanner' hclose =>
      subst hfin
      simp only [remaining, hclose] at h
      exact ⟨_, rfl, (List.cons_eq_cons.1 h).1⟩
  | _ => simp_all [remaining]

theorem startStream_of_opens (requestId : Option String) {hs : Handshake} {id : String}
    (h : Opens deps hs.first id) : ∃ sub, startStream deps requestId hs = some (.ok sub) ∧
      sub.id = id := by
  refine ⟨⟨id, requestId, hs.body, hs.scanner, hs.pending, false, false⟩, ?_, rfl⟩
  rw [startStream, if_neg (not_not.2 h.event), h.payload]
  exact if_neg h.nonempty

theorem subscribeOnce_of_opensStream {exchange : Exchange} {resp : Response}
    (hsend : exchange.send = some (.ok resp)) (hopens : resp.OpensStream) :
    subscribeOnce deps exchange = (firstFrame resp.body.fin resp.body.events .new []).andThen
      (startStream deps (requestIdFromHeaders resp.headers)) := by
  rw [subscribeOnce, sendRaw, hsend]
  simp only [Future.mapErr, Option.map_some, Except.mapError, Future.andThen_ok]
  rw [if_neg (not_not.2 hopens.1), if_neg (not_not.2 hopens.2)]

/-- Every frame that is complete before the first oversized line is handed over, by the scanner and,
with a `subscribed` frame in front, by a subscription, which then sees what the stream determines. -/
def HandsOver (chunks : List (List UInt8)) : Prop :=
  (feedAll new chunks).out = completeFrames chunks.flatten ∧
    ∀ (deps : Dependencies) (exchange : Exchange) (resp : Response) (first : Frame)
      (rest : List Frame) (id : String), exchange.send = some (.ok resp) → resp.OpensStream →
      chunksOf resp.body.events = chunks →
      (reference chunks.flatten resp.body.fin).1 = first :: rest → Opens deps first id →
      ∃ sub, subscribeOnce deps exchange = some (.ok sub) ∧ sub.id = id ∧
        Plays (Subscription.pollNext deps) sub
          ⟨matchesOf deps rest, (reference chunks.flatten resp.body.fin).2.ending,
            pendingsOf resp.body.events⟩

/-- The complete frames are handed over under exactly those cuttings in which the first oversized
line shares its chunk with the end of none of them. -/
theorem handsOver_iff (chunks : List (List UInt8)) : HandsOver chunks ↔ ¬ SharesChunk chunks := by
  rw [← feedAll_out_eq_iff]
  refine ⟨And.left, fun hout => ⟨hout, ?_⟩⟩
  rintro deps exchange resp first rest id hsend hopens rfl hframes hfirst
  rw [← frames_eq_reference hout] at hframes ⊢
  obtain ⟨hs, hhandshake, rfl⟩ := exists_firstFrame [] hframes
  obtain ⟨sub, hstart, hid⟩ := startStream_of_opens deps (requestIdFromHeaders resp.headers) hfirst
  obtain ⟨rest', hframes', hplays⟩ := plays_of_handshake deps hhandshake hstart
  rw [hframes] at hframes'
  obtain ⟨-, rfl⟩ := List.cons_eq_cons.1 hframes'
  refine ⟨sub, ?_, hid, hplays⟩
  rw [subscribeOnce_of_opensStream deps hsend hopens, hhandshake]
  exact hstart

def longLine (n : ℕ) : List UInt8 := List.replicate n 0x61 ++ [lf]

theorem openLines_longLine (n : ℕ) : openLines (longLine n) = ([List.replicate n 0x61], []) := by
  have hlf : lf ∉ List.replicate n (0x61 : UInt8) := fun h =>
    absurd (List.eq_of_mem_replicate h) (by decide)
  have hcr : cr ∉ List.replicate n (0x61 : UInt8) := fun h =>
    absurd (List.eq_of_mem_replicate h) (by decide)
  exact LineSplit.splitOpen_line hlf hcr []

theorem trips_longLine {s : List UInt8} (htail : (openLines s).2 = []) {n : ℕ}
    (hn : maxSseFrameBytes < n) : Trips (s ++ longLine n) := by
  rw [Trips, openLines_append, htail, List.nil_append, openLines_longLine]
  cases hs : (consumeLines new (openLines s).1).stop with
  | some e => simp [consumeLines_append_of_stop hs, hs]
  | none =>
      have hne : List.replicate n (0x61 : UInt8) ≠ [] := by
        intro hnil
        rw [List.replicate_eq_nil_iff] at hnil
        omega
      have hhead : (List.replicate n (0x61 : UInt8)).head? ≠ some colon := by
        rw [List.head?_replicate]
        split_ifs <;> decide
      rw [consumeLines_append hs, consumeLines_cons_error (consumeLine_tooLarge hne hhead
        (by rw [List.length_replicate]; omega))]
      simp

/-- A subscribed frame, a match and an oversized line in one chunk: both frames are lost. -/
theorem not_handsOver_longLine : ¬ HandsOver [sampleStream ++ longLine 65537] := by
  intro hhands
  refine (feedAll_out_eq_iff _).1 hhands.1 ⟨[], _, [], rfl, ?_, ?_, ?_⟩
  · exact not_not.2 rfl
  · exact trips_longLine (by decide) (by decide)
  · have hprefix := (completeFrames_isPrefix sampleStream (longLine 65537)).length_le
    have hsample : (completeFrames sampleStream).length = 2 := by rfl
    have hnil : (completeFrames []).length = 0 := rfl
    rw [List.flatten_nil, List.nil_append, hnil]
    omega

end Semantik
