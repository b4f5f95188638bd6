import Semantik.ErrorPrecedence
import Semantik.SubscribeRefinement
import Semantik.MalformedMeaning

/-!
# What the result of a call says

An error of a call says how its last exchange failed, whatever the earlier attempts got: its status,
request id, hint and code are those of the last response. It is a preflight error exactly if there
was no attempt. A call succeeds exactly if the first exchange that is not retried delivers what the
endpoint needs.
-/

namespace Semantik

open RetryLoop

variable {α : Type}

theorem Future.andThen_eq_error_iff {ε β : Type} {f : α → Future (Except ε β)}
    {x : Future (Except ε α)} {e : ε} : x.andThen f = some (.error e) ↔
      x = some (.error e) ∨ ∃ a, x = some (.ok a) ∧ f a = some (.error e) := by
  match x with
  | none => simp
  | some (.error e) => simp
  | some (.ok a) => simp

theorem Future.mapErr_eq_error_iff {ε ε' : Type} {f : ε → ε'} {x : Future (Except ε α)} {e' : ε'} :
    x.mapErr f = some (.error e') ↔ ∃ e, x = some (.error e) ∧ f e = e' := by
  match x with
  | none => simp [mapErr]
  | some (.error e) => simp [mapErr, Except.mapError]
  | some (.ok a) => simp [mapErr, Except.mapError]

structure RefusedWith (x : Exchange) (resp : Response) (bytes : List UInt8) : Prop
    extends Arrived x resp bytes where
  refused : ¬ isSuccess resp.status

/-- How a JSON attempt fails on this exchange, with the error that says so. -/
inductive JsonFailure (deps : Dependencies) (ty : ResponseType α) (x : Exchange) : Error → Prop where
  | transport {e : ReqwestError} (h : Broke x e) : JsonFailure deps ty x (.transport e)
  | tooLarge {resp : Response} {bytes : List UInt8} (h : Arrived x resp bytes)
      (hlarge : maxResponseBytes < bytes.length) :
      JsonFailure deps ty x (.malformedResponse (capMessage bytes.length) resp.status)
  | refused {resp : Response} {bytes : List UInt8} (h : RefusedWith x resp bytes)
      (hcap : bytes.length ≤ maxResponseBytes) :
      JsonFailure deps ty x (decodeErrorResponse deps resp.status resp.headers bytes x.now)
  | undecodable {resp : Response} {bytes : List UInt8} {e : String} (h : Arrived x resp bytes)
      (hstatus : isSuccess resp.status = true) (hcap : bytes.length ≤ maxResponseBytes)
      (hvalue : ty.fromSlice bytes = .error e) :
      JsonFailure deps ty x (.malformedResponse s!"decode response: {e}" resp.status)

inductive OpeningFailure (deps : Dependencies) (first : Frame) : Error → Prop where
  | event (hevent : first.event ≠ "subscribed") : OpeningFailure deps first
      (.malformedSse s!"expected 'subscribed' event, got {debugStr deps.printable first.event}")
  | undecodable {e : String} (hevent : first.event = "subscribed")
      (hpayload : deps.subscribedEvent first.data = .error e) :
      OpeningFailure deps first (.malformedSse s!"decode subscribed frame: {e}")
  | noId (hevent : first.event = "subscribed")
      (hpayload : deps.subscribedEvent first.data = .ok ⟨""⟩) :
      OpeningFailure deps first (.malformedSse "subscribed frame missing subscription_id")

/-- Why a body with these frames and this end does not open a subscription. -/
inductive StreamFailure (deps : Dependencies) : List Frame × StreamEnd → Error → Prop where
  | broken (e : ReqwestError) : StreamFailure deps ([], .broken e) (.transport e)
  | tooLarge (n : ℕ) :
      StreamFailure deps ([], .tooLarge n) (.malformedSse s!"subscribed frame exceeds {n} bytes")
  | closed :
      StreamFailure deps ([], .complete) (.malformedSse "stream closed before subscribed frame")
  | first {first : Frame} {rest : List Frame} {fin : StreamEnd} {err : Error}
      (h : OpeningFailure deps first err) : StreamFailure deps (first :: rest, fin) err

def Response.contentType (resp : Response) : String :=
  ((resp.headers "content-type").bind HeaderValue.toStr).getD ""

inductive HandshakeFailure (deps : Dependencies) (x : Exchange) : Error → Prop where
  | send {e : ReqwestError} (h : x.send = some (.error e)) : HandshakeFailure deps x (.transport e)
  | refusalBroke {resp : Response} {e : ReqwestError} (h : x.send = some (.ok resp))
      (hstatus : ¬ isSuccess resp.status) (hfin : resp.body.fin = .error e) :
      HandshakeFailure deps x (.transport e)
  | refused {resp : Response} {bytes : List UInt8} (h : RefusedWith x resp bytes) :
      HandshakeFailure deps x (decodeErrorResponse deps resp.status resp.headers bytes x.now)
  | contentType {resp : Response} (h : x.send = some (.ok resp))
      (hstatus : isSuccess resp.status = true)
      (htype : ¬ isEventStreamContentType resp.contentType) : HandshakeFailure deps x
        (.malformedSse s!"expected {mimeSse}, got {debugStr deps.printable resp.contentType}")
  | stream {resp : Response} {err : Error} (h : x.send = some (.ok resp))
      (hopens : resp.OpensStream) (hframes : StreamFailure deps resp.body.frames err) :
      HandshakeFailure deps x err

section

variable {deps : Dependencies} {x : Exchange}

theorem sendRaw_eq_error_iff {err : Error} :
    sendRaw x = some (.error err) ↔ ∃ e, x.send = some (.error e) ∧ .transport e = err :=
  Future.mapErr_eq_error_iff

theorem sendRaw_eq_ok_iff {resp : Response} :
    sendRaw x = some (.ok resp) ↔ x.send = some (.ok resp) :=
  Future.mapErr_eq_ok_iff

theorem bytes_eq_error_iff {body : Body} {e : ReqwestError} :
    body.bytes = some (.error e) ↔ body.fin = .error e := by
  unfold Body.bytes
  cases body.fin <;> simp

theorem readCapped_eq_ok_iff {resp : Response} {max : ℕ} {bytes : List UInt8} :
    readCapped resp max = some (.ok bytes) ↔
      resp.body.bytes = some (.ok bytes) ∧ bytes.length ≤ max := by
  rw [readCapped, Future.andThen_eq_ok_iff]
  simp only [Future.mapErr_eq_ok_iff]
  constructor
  · rintro ⟨bytes', hbytes, h⟩
    split_ifs at h with hlarge
    · cases h
    · cases h
      exact ⟨hbytes, not_lt.1 hlarge⟩
  · rintro ⟨hbytes, hcap⟩
    exact ⟨bytes, hbytes, if_neg (not_lt.2 hcap)⟩

theorem readCapped_eq_error_iff {resp : Response} {err : Error} :
    readCapped resp maxResponseBytes = some (.error err) ↔
      (∃ e, resp.body.fin = .error e ∧ .transport e = err) ∨
        ∃ bytes, resp.body.bytes = some (.ok bytes) ∧ maxResponseBytes < bytes.length ∧
          .malformedResponse (capMessage bytes.length) resp.status = err := by
  rw [readCapped, Future.andThen_eq_error_iff, Future.mapErr_eq_error_iff]
  simp only [Future.mapErr_eq_ok_iff, bytes_eq_error_iff]
  apply or_congr_right
  apply exists_congr
  intro bytes
  apply and_congr_right
  intro _
  split_ifs with hlarge
  · rw [Option.some.injEq, Except.error.injEq]
    exact (and_iff_right hlarge).symm
  · exact iff_of_false (by rintro ⟨⟩) (fun h => hlarge h.1)

theorem sendOnceJson_eq_error_iff {ty : ResponseType α} {err : Error} :
    sendOnceJson deps ty x = some (.error err) ↔ JsonFailure deps ty x err := by
  simp only [sendOnceJson, Future.andThen_eq_error_iff, readCapped_eq_error_iff,
    readCapped_eq_ok_iff, sendRaw_eq_error_iff, sendRaw_eq_ok_iff]
  constructor
  · rintro (⟨e, hsend, rfl⟩ | ⟨resp, hsend, (⟨e, hfin, rfl⟩ | ⟨bytes, hbytes, hlarge, rfl⟩) |
      ⟨bytes, ⟨hbytes, hcap⟩, h⟩⟩)
    · exact .transport (.inl hsend)
    · exact .transport (.inr ⟨resp, hsend, hfin⟩)
    · exact .tooLarge ⟨hsend, hbytes⟩ hlarge
    · split_ifs at h with hstatus
      · cases hvalue : ty.fromSlice bytes with
        | error e =>
            rw [hvalue] at h
            cases h
            exact .undecodable ⟨hsend, hbytes⟩ hstatus hcap hvalue
        | ok value =>
            rw [hvalue] at h
            cases h
      · cases h
        exact .refused ⟨⟨hsend, hbytes⟩, hstatus⟩ hcap
  · intro h
    cases h with
    | @transport e h =>
        obtain hsend | ⟨resp, hsend, hfin⟩ := h
        · exact .inl ⟨e, hsend, rfl⟩
        · exact .inr ⟨resp, hsend, .inl (.inl ⟨e, hfin, rfl⟩)⟩
    | @tooLarge resp bytes h hlarge =>
        exact .inr ⟨resp, h.send, .inl (.inr ⟨bytes, h.bytes, hlarge, rfl⟩)⟩
    | @refused resp bytes h hcap =>
        exact .inr ⟨resp, h.send, .inr ⟨bytes, ⟨h.bytes, hcap⟩, by rw [if_pos h.refused]⟩⟩
    | @undecodable resp bytes e h hstatus hcap hvalue =>
        refine .inr ⟨resp, h.send, .inr ⟨bytes, ⟨h.bytes, hcap⟩, ?_⟩⟩
        rw [if_neg (not_not.2 hstatus), hvalue]

theorem opening_eq_error_iff {first : Frame} {err : Error} :
    opening deps first = .error err ↔ OpeningFailure deps first err := by
  unfold opening
  constructor
  · intro h
    split_ifs at h with hevent
    · cases h
      exact .event hevent
    · cases hpayload : deps.subscribedEvent first.data with
      | error e =>
          rw [hpayload] at h
          cases h
          exact .undecodable (not_not.1 hevent) hpayload
      | ok sub =>
          rw [hpayload] at h
          dsimp only at h
          split_ifs at h with hempty
          cases h
          obtain ⟨id⟩ := sub
          dsimp only at hempty
          subst hempty
          exact .noId (not_not.1 hevent) hpayload
  · intro h
    cases h with
    | event hevent => exact if_pos hevent
    | undecodable hevent hpayload => rw [if_neg (not_not.2 hevent), hpayload]
    | noId hevent hpayload =>
        rw [if_neg (not_not.2 hevent), hpayload]
        rfl

theorem openedBy_eq_error_iff {requestId : Option String} {pendings : ℕ}
    {frames : List Frame × StreamEnd} {err : Error} :
    openedBy deps requestId pendings frames = some (.error err) ↔ StreamFailure deps frames err := by
  rw [openedBy, Future.andThen_eq_error_iff]
  constructor
  · intro h
    rcases frames with ⟨_ | ⟨first, rest⟩, fin⟩
    · obtain h | ⟨_, h, -⟩ := h
      · cases fin with
        | tooLarge n =>
            cases h
            exact .tooLarge n
        | broken e =>
            cases h
            exact .broken e
        | complete =>
            cases h
            exact .closed
        | waiting => cases h
      · cases fin <;> cases h
    · obtain h | ⟨_, h, hopening⟩ := h
      · cases h
      · cases h
        refine .first (opening_eq_error_iff.1 ?_)
        cases hid : opening deps first with
        | error e =>
            rw [hid] at hopening
            cases hopening
            rfl
        | ok id =>
            rw [hid] at hopening
            cases hopening
  · intro h
    cases h with
    | broken e => exact .inl rfl
    | tooLarge n => exact .inl rfl
    | closed => exact .inl rfl
    | first h =>
        refine .inr ⟨_, rfl, ?_⟩
        rw [opening_eq_error_iff.2 h]
        rfl

theorem subscribeOutcome_eq_error_iff {err : Error} :
    subscribeOutcome deps x = some (.error err) ↔ HandshakeFailure deps x err := by
  rw [subscribeOutcome, Future.andThen_eq_error_iff, sendRaw_eq_error_iff]
  simp only [sendRaw_eq_ok_iff]
  constructor
  · rintro (⟨e, hsend, rfl⟩ | ⟨resp, hsend, h⟩)
    · exact .send hsend
    · split_ifs at h with hstatus htype
      · exact .stream hsend ⟨hstatus, htype⟩ (openedBy_eq_error_iff.1 h)
      · cases h
        exact .contentType hsend hstatus htype
      · obtain hbytes | ⟨bytes, hbytes, h⟩ := Future.andThen_eq_error_iff.1 h
        · obtain ⟨e, hfin, rfl⟩ := Future.mapErr_eq_error_iff.1 hbytes
          exact .refusalBroke hsend hstatus (bytes_eq_error_iff.1 hfin)
        · cases h
          exact .refused ⟨⟨hsend, Future.mapErr_eq_ok_iff.1 hbytes⟩, hstatus⟩
  · intro h
    cases h with
    | @send e h => exact .inl ⟨e, h, rfl⟩
    | @refusalBroke resp e h hstatus hfin =>
        refine .inr ⟨resp, h, ?_⟩
        rw [if_pos hstatus, bytes_eq_error_iff.2 hfin]
        rfl
    | @refused resp bytes h =>
        refine .inr ⟨resp, h.send, ?_⟩
        rw [if_pos h.refused, h.bytes]
        rfl
    | @contentType resp h hstatus htype =>
        refine .inr ⟨resp, h, ?_⟩
        rw [if_neg (not_not.2 hstatus)]
        exact if_pos htype
    | @stream resp err h hopens hframes =>
        refine .inr ⟨resp, h, ?_⟩
        rw [if_neg (not_not.2 hopens.1)]
        exact (if_neg (not_not.2 hopens.2)).trans (openedBy_eq_error_iff.2 hframes)

theorem subscribeOnce_eq_error_iff {err : Error} :
    subscribeOnce deps x = some (.error err) ↔ HandshakeFailure deps x err := by
  rw [← subscribeOutcome_eq_error_iff]
  have halike := subscribeOnce_alike deps x
  generalize subscribeOnce deps x = r, subscribeOutcome deps x = o at halike
  cases halike with
  | never => exact iff_of_false (by rintro ⟨⟩) (by rintro ⟨⟩)
  | error e => rw [Option.some.injEq, Option.some.injEq, Except.error.injEq, Except.error.injEq]
  | ok h => exact iff_of_false (by rintro ⟨⟩) (by rintro ⟨⟩)

end

/-- The error is that of the checks and there was no attempt, or the checks passed and it is a
failure of the last attempt. -/
def FailsLast (check : Except Error Unit) (failure : UInt32 → Error → Prop) (call : Call α) :
    Prop :=
  ∀ err, call.phase = .returned (.error err) →
    (check = .error err ∧ call.calls = []) ∨
      check = .ok () ∧ ∃ attempt, call.calls.getLast? = some attempt ∧ failure attempt err

theorem failsLast_runWithRetry {client : Client} {f : UInt32 → Future (Except Error α)}
    {failure : UInt32 → Error → Prop} {rounds : ℕ}
    (h : ∀ attempt err, f attempt = some (.error err) → failure attempt err)
    (check : Except Error Unit) :
    FailsLast check failure (preflighted check (runWithRetry client f rounds)) := by
  intro err hphase
  match check with
  | .error err' =>
      cases hphase
      exact .inl ⟨rfl, rfl⟩
  | .ok () =>
      obtain ⟨front, attempt, hcalls, hattempt, -⟩ := RetryLoop.leaves_of_returned _ hphase
      refine .inr ⟨rfl, attempt, ?_, h attempt err hattempt⟩
      rw [preflighted, runWithRetry, hcalls]
      exact List.getLast?_concat

theorem failsLast_sendJson (client : Client) (deps : Dependencies) (ty : ResponseType α)
    (body : List UInt8) (network : Network) (rounds : ℕ) (check : Except Error Unit) :
    FailsLast check (fun k => JsonFailure deps ty (network body k))
      (preflighted check (sendJson client deps ty body network rounds)) :=
  failsLast_runWithRetry (fun _ _ => sendOnceJson_eq_error_iff.1) check

theorem phase_mapErr {call : Call α} {g : Error → Error} {err : Error}
    (h : (mapErr g call).phase = .returned (.error err)) :
    ∃ e, call.phase = .returned (.error e) ∧ err = g e := by
  obtain ⟨calls, sleeps, phase⟩ := call
  match phase with
  | .ready _ | .waiting | .overflowed | .returned (.ok _) => cases h
  | .returned (.error e) =>
      cases h
      exact ⟨e, rfl, rfl⟩

def SetupFailure (deps : Dependencies) (x : Exchange) (err : Error) : Prop :=
  ∃ source, err = .subscribeSetup source ∧ HandshakeFailure deps x source

theorem failsLast_subscribe (client : Client) (deps : Dependencies) (network : Network)
    (req : SubscribeRequest) (rounds : ℕ) :
    FailsLast req.validate (fun k => SetupFailure deps (network (req.toVec deps) k))
      (client.subscribe deps network req rounds) := by
  intro err hphase
  unfold Client.subscribe at hphase ⊢
  match hcheck : req.validate with
  | .error err' =>
      rw [hcheck] at hphase
      cases hphase
      exact .inl ⟨rfl, rfl⟩
  | .ok () =>
      rw [hcheck] at hphase
      obtain ⟨e, he, rfl⟩ := phase_mapErr hphase
      obtain ⟨front, attempt, hcalls, hattempt, -⟩ := RetryLoop.leaves_of_returned _ he
      refine .inr ⟨rfl, attempt, ?_, e, rfl, subscribeOnce_eq_error_iff.1 hattempt⟩
      rw [preflighted, calls_mapErr, runWithRetry, hcalls]
      exact List.getLast?_concat

/-- What can be asked of the error is answered by this exchange. -/
structure About (deps : Dependencies) (x : Exchange) (err : Error) : Prop where
  status : ∀ s, err.httpStatus = some s → ∃ resp, x.send = some (.ok resp) ∧ resp.status = s
  no_status : err.httpStatus = none → (∃ e, Broke x e) ∨
    ∃ resp, x.send = some (.ok resp) ∧ isSuccess resp.status = true
  code : ∀ c, err.code = some c → c = .malformedResponse ∨
    ∃ resp bytes, RefusedWith x resp bytes ∧ responseCode deps resp.status bytes = c
  requestId : ∀ id, err.requestId = some id → ∃ resp bytes, RefusedWith x resp bytes ∧
    (bodyRequestId deps bytes).or (headerRequestId resp.headers) = some id
  retryAfter : ∀ d, err.retryAfter = some d → ∃ resp bytes, RefusedWith x resp bytes ∧
    (bodyRetryAfter deps bytes).or (parseRetryAfterHeader resp.headers x.now) = some d

section

variable {deps : Dependencies} {x : Exchange}

theorem about_transport {e : ReqwestError} (h : Broke x e) : About deps x (.transport e) where
  status := by rintro s ⟨⟩
  no_status _ := .inl ⟨e, h⟩
  code := by rintro c ⟨⟩
  requestId := by rintro id ⟨⟩
  retryAfter := by rintro d ⟨⟩

theorem about_malformedResponse {resp : Response} (h : x.send = some (.ok resp))
    (message : String) : About deps x (.malformedResponse message resp.status) where
  status := by
    rintro s ⟨⟩
    exact ⟨resp, h, rfl⟩
  no_status := by rintro ⟨⟩
  code := by
    rintro c ⟨⟩
    exact .inl rfl
  requestId := by rintro id ⟨⟩
  retryAfter := by rintro d ⟨⟩

theorem about_malformedSse {resp : Response} (h : x.send = some (.ok resp))
    (hstatus : isSuccess resp.status = true) (message : String) :
    About deps x (.malformedSse message) where
  status := by rintro s ⟨⟩
  no_status _ := .inr ⟨resp, h, hstatus⟩
  code := by rintro c ⟨⟩
  requestId := by rintro id ⟨⟩
  retryAfter := by rintro d ⟨⟩

theorem about_decodeErrorResponse {resp : Response} {bytes : List UInt8}
    (h : RefusedWith x resp bytes) :
    About deps x (decodeErrorResponse deps resp.status resp.headers bytes x.now) := by
  have hrequestId := requestId_decodeErrorResponse deps resp.status resp.headers bytes x.now
  have hretryAfter := retryAfter_decodeErrorResponse deps resp.status resp.headers bytes x.now
  obtain ⟨message, requestId, retryAfter, heq, -⟩ :=
    exists_decodeErrorResponse deps resp.status resp.headers bytes x.now
  refine ⟨?_, ?_, ?_, ?_, ?_⟩
  · rw [heq]
    rintro s ⟨⟩
    exact ⟨resp, h.send, rfl⟩
  · rw [heq]
    rintro ⟨⟩
  · rw [heq]
    rintro c ⟨⟩
    exact .inr ⟨resp, bytes, h, rfl⟩
  · intro id hid
    exact ⟨resp, bytes, h, hrequestId.symm.trans hid⟩
  · intro d hd
    exact ⟨resp, bytes, h, hretryAfter.symm.trans hd⟩

/-- The accessors look through the wrap of a failed handshake. -/
theorem About.subscribeSetup {err : Error} (h : About deps x err) :
    About deps x (.subscribeSetup err) := ⟨h.status, h.no_status, h.code, h.requestId, h.retryAfter⟩

theorem JsonFailure.about {ty : ResponseType α} {err : Error} (h : JsonFailure deps ty x err) :
    About deps x err := by
  cases h with
  | transport h => exact about_transport h
  | tooLarge h hlarge => exact about_malformedResponse h.send _
  | refused h hcap => exact about_decodeErrorResponse h
  | undecodable h hstatus hcap hvalue => exact about_malformedResponse h.send _

/-- A stream breaks only where its body does. -/
theorem fin_of_broken {fin : BodyEnd} {events : List BodyEvent} {s : Scanner} {e : ReqwestError}
    (h : (remaining fin events s).2 = .broken e) : fin = .error e := by
  induction events generalizing s with
  | nil =>
      cases fin with
      | idle => cases h
      | error e' =>
          cases h
          rfl
      | eof =>
          unfold remaining at h
          rcases hclose : s.close with ⟨⟨n⟩ | frame, s'⟩ <;> simp [hclose] at h
  | cons event events ih =>
      cases event with
      | pending => exact ih h
      | chunk bytes =>
          rcases hfeed : s.feed bytes with ⟨⟨n⟩ | frames, s'⟩
          · rw [remaining_chunk_error hfeed] at h
            cases h
          · rw [remaining_chunk hfeed] at h
            exact ih h

theorem HandshakeFailure.about {err : Error} (h : HandshakeFailure deps x err) :
    About deps x err := by
  cases h with
  | send h => exact about_transport (.inl h)
  | @refusalBroke resp e h hstatus hfin => exact about_transport (.inr ⟨resp, h, hfin⟩)
  | refused h => exact about_decodeErrorResponse h
  | contentType h hstatus htype => exact about_malformedSse h hstatus _
  | @stream resp err h hopens hframes =>
      generalize hbody : resp.body.frames = frames at hframes
      cases hframes with
      | broken e =>
          exact about_transport (.inr ⟨resp, h, fin_of_broken (congrArg Prod.snd hbody)⟩)
      | tooLarge n => exact about_malformedSse h hopens.1 _
      | closed => exact about_malformedSse h hopens.1 _
      | first hfirst => cases hfirst <;> exact about_malformedSse h hopens.1 _

theorem SetupFailure.about {err : Error} (h : SetupFailure deps x err) : About deps x err := by
  obtain ⟨source, rfl, hsource⟩ := h
  exact hsource.about.subscribeSetup

theorem about_sendOnceJson {ty : ResponseType α} {err : Error}
    (h : sendOnceJson deps ty x = some (.error err)) : About deps x err :=
  (sendOnceJson_eq_error_iff.1 h).about

theorem about_subscribeOnce {err : Error} (h : subscribeOnce deps x = some (.error err)) :
    About deps x err :=
  (subscribeOnce_eq_error_iff.1 h).about

theorem about_health {err : Error} (h : Client.health deps x = some (.error err)) :
    About deps x err := by
  obtain hraw | ⟨resp, hraw, h⟩ := Future.andThen_eq_error_iff.1 h
  · obtain ⟨e, hsend, rfl⟩ := sendRaw_eq_error_iff.1 hraw
    exact about_transport (.inl hsend)
  have hsend := sendRaw_eq_ok_iff.1 hraw
  obtain hbytes | ⟨bytes, hbytes, h⟩ := Future.andThen_eq_error_iff.1 h
  · obtain ⟨e, hfin, rfl⟩ := Future.mapErr_eq_error_iff.1 hbytes
    exact about_transport (.inr ⟨resp, hsend, bytes_eq_error_iff.1 hfin⟩)
  · split_ifs at h with hstatus
    · cases h
    · cases h
      exact about_decodeErrorResponse ⟨⟨hsend, Future.mapErr_eq_ok_iff.1 hbytes⟩, hstatus⟩

end

def HasStatus (network : Network) : Prop :=
  ∀ body attempt resp, (network body attempt).send = some (.ok resp) → resp.status ≠ 0

theorem httpStatus_of_isPreflight {err : Error} (h : err.isPreflight = true) :
    err.httpStatus = some 0 := by
  cases err with
  | api code message requestId retryAfter status => exact congrArg some (beq_iff_eq.1 h)
  | _ => cases h

theorem FailsLast.isPreflight_iff {deps : Dependencies} {check : Except Error Unit}
    {failure : UInt32 → Error → Prop} {network : Network} {body : List UInt8} {call : Call α}
    (h : FailsLast check failure call)
    (habout : ∀ attempt err, failure attempt err → About deps (network body attempt) err)
    (hcheck : RejectsOnly check) (hstatus : HasStatus network) {err : Error}
    (hphase : call.phase = .returned (.error err)) :
    err.isPreflight = true ↔ call.calls = [] := by
  obtain ⟨hreject, hcalls⟩ | ⟨-, attempt, hlast, hfailure⟩ := h err hphase
  · obtain ⟨message, rfl⟩ := hcheck err hreject
    exact iff_of_true rfl hcalls
  · apply iff_of_false
    · intro hpreflight
      obtain ⟨resp, hsend, hzero⟩ :=
        (habout attempt err hfailure).status 0 (httpStatus_of_isPreflight hpreflight)
      exact hstatus body attempt resp hsend hzero
    · intro hnil
      rw [hnil] at hlast
      cases hlast

/-- An error is a preflight error exactly if the call has made no attempt, on the four endpoints
with checks and under every policy. -/
theorem isPreflight_iff_no_attempt (client : Client) (deps : Dependencies) {network : Network}
    (h : HasStatus network) (rounds : ℕ) (err : Error) :
    (∀ req : PublishRequest, let call := client.publish deps network req rounds
      call.phase = .returned (.error err) → (err.isPreflight = true ↔ call.calls = [])) ∧
    (∀ req : SearchRequest, let call := client.search deps network req rounds
      call.phase = .returned (.error err) → (err.isPreflight = true ↔ call.calls = [])) ∧
    (∀ req : LintRequest, let call := client.lint deps network req rounds
      call.phase = .returned (.error err) → (err.isPreflight = true ↔ call.calls = [])) ∧
    ∀ req : SubscribeRequest, let call := client.subscribe deps network req rounds
      call.phase = .returned (.error err) → (err.isPreflight = true ↔ call.calls = []) := by
  refine ⟨?_, ?_, ?_, ?_⟩
  · intro req call hphase
    exact (failsLast_sendJson client deps _ _ network rounds _).isPreflight_iff
      (fun _ _ hfailure => hfailure.about) (req.rejectsOnly_validate _) h hphase
  · intro req call hphase
    exact (failsLast_sendJson client deps _ _ network rounds _).isPreflight_iff
      (fun _ _ hfailure => hfailure.about) req.rejectsOnly_validate h hphase
  · intro req call hphase
    exact (failsLast_sendJson client deps _ _ network rounds _).isPreflight_iff
      (fun _ _ hfailure => hfailure.about) req.rejectsOnly_validate h hphase
  · intro req call hphase
    exact (failsLast_subscribe client deps network req rounds).isPreflight_iff
      (fun _ _ hfailure => hfailure.about) req.rejectsOnly_validate h hphase

theorem hasStatus_refusals : HasStatus refusals := by
  rintro body attempt resp ⟨⟩
  decide

/-- A publish without a namespace. -/
theorem isPreflight_iff_no_attempt_empty : HasStatus refusals ∧
    let call := Client.publish ⟨noRetry⟩ .sample refusals {} 1
    call.phase = .returned (.error (.preflight "namespace must not be empty")) ∧
      ((Error.preflight "namespace must not be empty").isPreflight = true ↔ call.calls = []) :=
  ⟨hasStatus_refusals, rfl,
    (isPreflight_iff_no_attempt _ .sample hasStatus_refusals 1 _).1 {} rfl⟩

def Delivers (ty : ResponseType α) (x : Exchange) (v : α) : Prop :=
  ∃ resp bytes value, Arrived x resp bytes ∧ isSuccess resp.status = true ∧
    bytes.length ≤ maxResponseBytes ∧ ty.fromSlice bytes = .ok value ∧
    ty.setRequestId value (requestIdFromHeaders resp.headers) = v

def OpensWith (deps : Dependencies) (x : Exchange) (id : String) (requestId : Option String) :
    Prop :=
  ∃ resp first, x.send = some (.ok resp) ∧ resp.OpensStream ∧
    resp.body.frames.1.head? = some first ∧ Opens deps first id ∧
    requestIdFromHeaders resp.headers = requestId

theorem sendOnceJson_eq_ok_iff {deps : Dependencies} {ty : ResponseType α} {x : Exchange} {v : α} :
    sendOnceJson deps ty x = some (.ok v) ↔ Delivers ty x v := by
  simp only [sendOnceJson, Future.andThen_eq_ok_iff, readCapped_eq_ok_iff, sendRaw_eq_ok_iff]
  constructor
  · rintro ⟨resp, hsend, bytes, ⟨hbytes, hcap⟩, h⟩
    split_ifs at h with hstatus
    · cases hvalue : ty.fromSlice bytes with
      | error e =>
          rw [hvalue] at h
          cases h
      | ok value =>
          rw [hvalue] at h
          cases h
          exact ⟨resp, bytes, value, ⟨hsend, hbytes⟩, hstatus, hcap, hvalue, rfl⟩
    · cases h
  · rintro ⟨resp, bytes, value, ⟨hsend, hbytes⟩, hstatus, hcap, hvalue, rfl⟩
    refine ⟨resp, hsend, bytes, ⟨hbytes, hcap⟩, ?_⟩
    rw [if_neg (not_not.2 hstatus), hvalue]

theorem opening_eq_ok_iff {deps : Dependencies} {first : Frame} {id : String} :
    opening deps first = .ok id ↔ Opens deps first id := by
  unfold opening
  constructor
  · intro h
    by_cases hevent : first.event = "subscribed"
    · rw [if_neg (not_not.2 hevent)] at h
      cases hpayload : deps.subscribedEvent first.data with
      | error e =>
          rw [hpayload] at h
          cases h
      | ok sub =>
          rw [hpayload] at h
          dsimp only at h
          split_ifs at h with hempty
          cases h
          exact ⟨hevent, hpayload, hempty⟩
    · rw [if_pos hevent] at h
      cases h
  · intro h
    rw [if_neg (not_not.2 h.event), h.payload]
    exact if_neg h.nonempty

theorem head_of_firstOf {frames : List Frame × StreamEnd} {first : Frame}
    (h : firstOf frames = some (.ok first)) : frames.1.head? = some first := by
  rcases frames with ⟨_ | ⟨first', rest⟩, n | e | _ | _⟩ <;> cases h <;> rfl

theorem opensWith_of_subscribeOnce {deps : Dependencies} {x : Exchange} {sub : Subscription}
    (hsub : subscribeOnce deps x = some (.ok sub)) : OpensWith deps x sub.id sub.requestId := by
  have halike := subscribeOnce_alike deps x
  rw [hsub] at halike
  obtain ⟨o, houtcome, hrefines⟩ : ∃ o, subscribeOutcome deps x = some (.ok o) ∧
      Refines deps sub o := by
    generalize subscribeOutcome deps x = r at halike
    cases halike with
    | ok h => exact ⟨_, rfl, h⟩
  obtain ⟨resp, hraw, h⟩ := (Future.andThen_eq_ok_iff _).1 houtcome
  dsimp only at h
  split_ifs at h with hstatus htype
  · obtain ⟨first, hfirst, h⟩ := (Future.andThen_eq_ok_iff _).1 h
    have hhead := head_of_firstOf hfirst
    rw [Option.some.injEq] at h
    cases hopening : opening deps first with
    | error e =>
        rw [hopening] at h
        cases h
    | ok id =>
        rw [hopening] at h
        cases h
        refine ⟨resp, first, Future.mapErr_eq_ok_iff.1 hraw, ⟨hstatus, htype⟩, hhead, ?_, ?_⟩
        · rw [hrefines.id]
          exact opening_eq_ok_iff.1 hopening
        · exact hrefines.requestId.symm
  · cases h
  · obtain ⟨_, _, h⟩ := (Future.andThen_eq_ok_iff _).1 h
    cases h

theorem health_eq_ok_iff {deps : Dependencies} {x : Exchange} :
    Client.health deps x = some (.ok ()) ↔
      ∃ resp bytes, Arrived x resp bytes ∧ isSuccess resp.status = true := by
  simp only [Client.health, Future.andThen_eq_ok_iff, sendRaw, Future.mapErr_eq_ok_iff]
  constructor
  · rintro ⟨resp, hsend, bytes, hbytes, h⟩
    split_ifs at h with hstatus
    · exact ⟨resp, bytes, ⟨hsend, hbytes⟩, hstatus⟩
    · cases h
  · rintro ⟨resp, bytes, ⟨hsend, hbytes⟩, hstatus⟩
    exact ⟨resp, hsend, bytes, hbytes, if_pos hstatus⟩

end Semantik
