import Semantik.SubscribeRefinement

/-!
# The network may cut bodies as it likes

Two networks that answer with the same responses, cut into different chunks and with different
pauses, cannot be told apart by any call: it makes the same attempts, sleeps as long and returns the
same result. Two subscriptions are the same if they name the same id and yield the same items. Only
a chunk that brings an oversized line together with the end of a frame makes a difference there.
-/

namespace Semantik

open PollScript RetryLoop Scanner

structure Response.Recut (r r' : Response) : Prop where
  status : r.status = r'.status
  headers : r.headers = r'.headers
  stream : (chunksOf r.body.events).flatten = (chunksOf r'.body.events).flatten
  fin : r.body.fin = r'.body.fin

structure Exchange.Recut (x x' : Exchange) : Prop where
  send : Alike Response.Recut x.send x'.send
  now : x.now = x'.now

/-- No chunk brings an oversized line together with the end of a frame. -/
def Exchange.Lossless (x : Exchange) : Prop :=
  ∀ resp, x.send = some (.ok resp) → ¬ SharesChunk (chunksOf resp.body.events)

structure Opened.Recut (o o' : Opened) : Prop where
  id : o.id = o'.id
  requestId : o.requestId = o'.requestId
  items : o.script.items = o'.script.items
  ending : o.script.ending = o'.script.ending

section

variable (deps : Dependencies)

/-- Two subscriptions with one id and one request id that play the same items, with the same end. -/
structure SameReading (sub sub' : Subscription) : Prop where
  id : sub.id = sub'.id
  requestId : sub.requestId = sub'.requestId
  plays : ∃ items ending pendings pendings',
    Plays (Subscription.pollNext deps) sub ⟨items, ending, pendings⟩ ∧
      Plays (Subscription.pollNext deps) sub' ⟨items, ending, pendings'⟩

variable {deps}

theorem sameReading_of_refines {sub sub' : Subscription} {o o' : Opened} (h : Refines deps sub o)
    (h' : Refines deps sub' o') (hrecut : o.Recut o') : SameReading deps sub sub' := by
  obtain ⟨id, requestId, items, ending, pendings⟩ := o
  obtain ⟨id', requestId', items', ending', pendings'⟩ := o'
  obtain ⟨rfl, rfl, rfl, rfl⟩ := hrecut
  exact ⟨h.id.trans h'.id.symm, h.requestId.trans h'.requestId.symm,
    items, ending, pendings, pendings', h.plays, h'.plays⟩

theorem Response.Recut.bytes {r r' : Response} (h : r.Recut r') : r.body.bytes = r'.body.bytes := by
  rw [Body.bytes, Body.bytes, h.stream, h.fin]

/-- Without a loss of frames, both bodies yield the frames that the stream determines. -/
theorem Response.Recut.frames {r r' : Response} (h : r.Recut r')
    (hcut : ¬ SharesChunk (chunksOf r.body.events))
    (hcut' : ¬ SharesChunk (chunksOf r'.body.events)) : r.body.frames = r'.body.frames := by
  rw [frames_eq_reference ((feedAll_out_eq_iff _).2 hcut),
    frames_eq_reference ((feedAll_out_eq_iff _).2 hcut'), h.stream, h.fin]

variable (deps)

theorem openedBy_alike (requestId : Option String) (pendings pendings' : ℕ)
    (frames : List Frame × StreamEnd) :
    Alike Opened.Recut (openedBy deps requestId pendings frames)
      (openedBy deps requestId pendings' frames) := by
  unfold openedBy
  match firstOf frames with
  | none => exact .never
  | some (.error e) => exact .error e
  | some (.ok first) =>
      rw [Future.andThen_ok, Future.andThen_ok]
      match opening deps first with
      | .error e => exact .error e
      | .ok id => exact .ok ⟨rfl, rfl, rfl, rfl⟩

theorem subscribeOutcome_alike {x x' : Exchange} (h : x.Recut x') (hx : x.Lossless)
    (hx' : x'.Lossless) :
    Alike Opened.Recut (subscribeOutcome deps x) (subscribeOutcome deps x') := by
  obtain ⟨send, now⟩ := x
  obtain ⟨send', now'⟩ := x'
  obtain ⟨hsend, rfl⟩ := h
  rw [subscribeOutcome, subscribeOutcome, sendRaw, sendRaw]
  cases hsend with
  | never => exact .never
  | error e => exact .error (Error.transport e)
  | @ok resp resp' hrecut =>
      have hframes := hrecut.frames (hx _ rfl) (hx' _ rfl)
      have hbytes := hrecut.bytes
      obtain ⟨status, headers, body⟩ := resp
      obtain ⟨status', headers', body'⟩ := resp'
      obtain ⟨rfl, rfl, -, -⟩ := hrecut
      dsimp only at hframes hbytes
      simp only [Future.mapErr, Option.map_some, Except.mapError, Future.andThen_ok, hframes,
        hbytes]
      split_ifs
      · exact openedBy_alike deps _ _ _ _
      · exact .error _
      · cases body'.bytes with
        | none => exact .never
        | some result =>
            cases result with
            | error e => exact .error _
            | ok bytes => exact .error _

theorem subscribeOnce_recut {x x' : Exchange} (h : x.Recut x') (hx : x.Lossless)
    (hx' : x'.Lossless) :
    Alike (SameReading deps) (subscribeOnce deps x) (subscribeOnce deps x') := by
  have hrefines := (subscribeOnce_alike deps x).comp (subscribeOutcome_alike deps h hx hx')
  refine (hrefines.comp (subscribeOnce_alike deps x').symm).mono ?_
  rintro sub sub' ⟨o', ⟨o, ho, hrecut⟩, ho'⟩
  exact sameReading_of_refines ho ho' hrecut

/-- A JSON attempt looks at the whole body. -/
theorem sendOnceJson_recut {α : Type} (ty : ResponseType α) {x x' : Exchange} (h : x.Recut x') :
    sendOnceJson deps ty x = sendOnceJson deps ty x' := by
  obtain ⟨send, now⟩ := x
  obtain ⟨send', now'⟩ := x'
  obtain ⟨hsend, rfl⟩ := h
  rw [sendOnceJson, sendOnceJson, sendRaw, sendRaw]
  cases hsend with
  | never => rfl
  | error e => rfl
  | ok hrecut =>
      simp only [Future.mapErr, Option.map_some, Except.mapError, Future.andThen_ok, readCapped,
        hrecut.bytes, hrecut.status, hrecut.headers]

theorem health_recut {x x' : Exchange} (h : x.Recut x') :
    Client.health deps x = Client.health deps x' := by
  obtain ⟨send, now⟩ := x
  obtain ⟨send', now'⟩ := x'
  obtain ⟨hsend, rfl⟩ := h
  rw [Client.health, Client.health, sendRaw, sendRaw]
  cases hsend with
  | never => rfl
  | error e => rfl
  | ok hrecut =>
      simp only [Future.mapErr, Option.map_some, Except.mapError, Future.andThen_ok,
        hrecut.bytes, hrecut.status, hrecut.headers]

theorem sendJson_recut {α : Type} (client : Client) (ty : ResponseType α) (body : List UInt8)
    {network network' : Network} (h : ∀ attempt, (network body attempt).Recut (network' body attempt))
    (rounds : ℕ) : sendJson client deps ty body network rounds =
      sendJson client deps ty body network' rounds := by
  rw [sendJson, sendJson]
  exact congrArg (runWithRetry client · rounds) (funext fun k => sendOnceJson_recut deps ty (h k))

end

/-- On every endpoint and under every policy, calls against two networks that only cut their bodies
differently make the same attempts, sleep as long and return the same. For subscriptions this needs
that no frame is lost to an oversized line. -/
theorem recut_calls (client : Client) (deps : Dependencies) {network network' : Network}
    (h : ∀ body attempt, (network body attempt).Recut (network' body attempt)) (rounds : ℕ) :
    (∀ req : PublishRequest, client.publish deps network req rounds =
      client.publish deps network' req rounds) ∧
    (∀ req : SearchRequest, client.search deps network req rounds =
      client.search deps network' req rounds) ∧
    (∀ req : LintRequest, client.lint deps network req rounds =
      client.lint deps network' req rounds) ∧
    (∀ req : SubscribeRequest, (∀ attempt, (network (req.toVec deps) attempt).Lossless ∧
        (network' (req.toVec deps) attempt).Lossless) →
      TraceAlike (SameReading deps) (client.subscribe deps network req rounds)
        (client.subscribe deps network' req rounds)) ∧
    ∀ body attempt, Client.health deps (network body attempt) =
      Client.health deps (network' body attempt) := by
  refine ⟨?_, ?_, ?_, ?_, ?_⟩
  · intro req
    exact congrArg (preflighted _) (sendJson_recut deps client _ _ (h _) rounds)
  · intro req
    exact congrArg (preflighted _) (sendJson_recut deps client _ _ (h _) rounds)
  · intro req
    exact congrArg (preflighted _) (sendJson_recut deps client _ _ (h _) rounds)
  · intro req hlossless
    apply traceAlike_preflighted
    apply traceAlike_mapErr
    refine runWithRetry_alike client (fun attempt => ?_) rounds
    exact subscribeOnce_recut deps (h _ _) (hlossless attempt).1 (hlossless attempt).2
  · intro body attempt
    exact health_recut deps (h body attempt)

def wholeNetwork : Network := fun _ _ => sampleExchange

def choppedNetwork : Network := fun _ _ =>
  ⟨some (.ok (streamResponse ⟨[.chunk (sampleStream.take 5), .pending,
    .chunk ((sampleStream.drop 5).take 44), .chunk ((sampleStream.drop 5).drop 44)], .eof⟩)), 0⟩

def sampleSubscribe : SubscribeRequest := ⟨"q", "n", "m", 1⟩

theorem recut_calls_chopped :
    (∀ body attempt, (wholeNetwork body attempt).Recut (choppedNetwork body attempt)) ∧
    (∀ attempt, (wholeNetwork (sampleSubscribe.toVec .sample) attempt).Lossless ∧
      (choppedNetwork (sampleSubscribe.toVec .sample) attempt).Lossless) ∧
    TraceAlike (SameReading .sample)
      (Client.subscribe ⟨noRetry⟩ .sample wholeNetwork sampleSubscribe 1)
      (Client.subscribe ⟨noRetry⟩ .sample choppedNetwork sampleSubscribe 1) := by
  have hrecut : ∀ body attempt, (wholeNetwork body attempt).Recut (choppedNetwork body attempt) :=
    fun _ _ => ⟨.ok ⟨rfl, rfl, by rfl, rfl⟩, rfl⟩
  have hlossless : ∀ attempt, (wholeNetwork (sampleSubscribe.toVec .sample) attempt).Lossless ∧
      (choppedNetwork (sampleSubscribe.toVec .sample) attempt).Lossless := by
    intro attempt
    constructor
    · rintro resp ⟨⟩
      exact (feedAll_out_eq_iff _).1 (by rfl)
    · rintro resp ⟨⟩
      exact (feedAll_out_eq_iff _).1 (by rfl)
  exact ⟨hrecut, hlossless, (recut_calls _ .sample hrecut 1).2.2.2.1 _ hlossless⟩

end Semantik
