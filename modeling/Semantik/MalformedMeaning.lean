import Semantik.ErrorPaths
import Semantik.NoRepeat
import Semantik.PublishPreflight

/-!
# What `malformed_response` says about a call

An error with this code and a status should mean that the server accepted the last request and that
its answer was of no use. A response outside 2xx gets the code in two ways: on the JSON endpoints if
its body is over the cap, and everywhere if its body names the code.
-/

namespace Semantik

variable {α : Type}

/-- The error has the code, and it is not from before the request was sent. -/
def ReportsMalformed (err : Error) : Prop :=
  err.code = some .malformedResponse ∧ err.httpStatus ≠ some 0

structure Arrived (exchange : Exchange) (resp : Response) (bytes : List UInt8) : Prop where
  send : exchange.send = some (.ok resp)
  bytes : resp.body.bytes = some (.ok bytes)

def Accepted (P : List UInt8 → Prop) (exchange : Exchange) : Prop :=
  ∃ resp bytes, Arrived exchange resp bytes ∧ isSuccess resp.status = true ∧ P bytes

def Refused (P : List UInt8 → Prop) (exchange : Exchange) : Prop :=
  ∃ resp bytes, Arrived exchange resp bytes ∧ ¬ isSuccess resp.status ∧ resp.status ≠ 0 ∧ P bytes

def NamesMalformed (deps : Dependencies) (bytes : List UInt8) : Prop :=
  errorString deps bytes = some "malformed_response"

def LargeOr (P : List UInt8 → Prop) (bytes : List UInt8) : Prop :=
  maxResponseBytes < bytes.length ∨ P bytes

theorem Arrived.unique {exchange : Exchange} {resp resp' : Response} {bytes bytes' : List UInt8}
    (h : Arrived exchange resp bytes) (h' : Arrived exchange resp' bytes') :
    resp = resp' ∧ bytes = bytes' := by
  obtain ⟨hsend, hbytes⟩ := h
  obtain ⟨hsend', hbytes'⟩ := h'
  rw [hsend] at hsend'
  cases hsend'
  rw [hbytes] at hbytes'
  cases hbytes'
  exact ⟨rfl, rfl⟩

/-- A response is not both. -/
theorem Accepted.not_refused {P Q : List UInt8 → Prop} {exchange : Exchange}
    (h : Accepted P exchange) : ¬ Refused Q exchange := by
  obtain ⟨resp, bytes, harrived, hsuccess, -⟩ := h
  rintro ⟨resp', bytes', harrived', hrefused, -⟩
  rw [(harrived.unique harrived').1] at hsuccess
  exact hrefused hsuccess

@[simp] theorem not_reportsMalformed_transport (e : ReqwestError) :
    ¬ ReportsMalformed (.transport e) := by
  intro h
  cases h.1

@[simp] theorem not_reportsMalformed_preflight (message : String) :
    ¬ ReportsMalformed (.preflight message) := by
  intro h
  cases h.1

theorem reportsMalformed_malformedResponse {message : String} {status : ℕ} :
    ReportsMalformed (.malformedResponse message status) ↔ status ≠ 0 := by
  rw [ReportsMalformed, Error.malformedResponse, Error.code, Error.httpStatus]
  simp

theorem responseCode_eq_malformedResponse_iff (deps : Dependencies) (status : ℕ)
    (body : List UInt8) :
    responseCode deps status body = .malformedResponse ↔ NamesMalformed deps body := by
  rw [responseCode, NamesMalformed]
  cases errorString deps body with
  | none => simp [statusCodeFallback_ne_malformedResponse]
  | some s =>
      rw [Option.map_some, Option.getD_some, ErrorCode.fromWire_eq_iff (by rintro _ ⟨⟩),
        Option.some.injEq]
      rfl

theorem reportsMalformed_decodeErrorResponse (deps : Dependencies) (status : ℕ)
    (headers : HeaderMap) (body : List UInt8) (now : SystemTime) :
    ReportsMalformed (decodeErrorResponse deps status headers body now) ↔
      status ≠ 0 ∧ NamesMalformed deps body := by
  obtain ⟨message, requestId, retryAfter, heq, -⟩ :=
    exists_decodeErrorResponse deps status headers body now
  rw [heq, ReportsMalformed, Error.code, Error.httpStatus, Option.some.injEq,
    responseCode_eq_malformedResponse_iff, and_comm, Ne, Option.some.injEq]

def EndsMalformed (result : Future (Except Error α)) : Prop :=
  ∃ err, result = some (.error err) ∧ ReportsMalformed err

theorem not_endsMalformed_none : ¬ EndsMalformed (none : Future (Except Error α)) := by
  rintro ⟨err, h, -⟩
  cases h

theorem not_endsMalformed_ok (a : α) : ¬ EndsMalformed (some (.ok a)) := by
  rintro ⟨err, h, -⟩
  cases h

theorem endsMalformed_error {err : Error} :
    EndsMalformed (some (.error err) : Future (Except Error α)) ↔ ReportsMalformed err := by
  constructor
  · rintro ⟨err', h, hreports⟩
    cases h
    exact hreports
  · intro h
    exact ⟨err, rfl, h⟩

/-- A transport failure before the response has arrived reports nothing. -/
theorem endsMalformed_andThen {β : Type} {x : Future (Except ReqwestError β)}
    {f : β → Future (Except Error α)} :
    EndsMalformed ((x.mapErr .transport).andThen f) ↔
      ∃ b, x = some (.ok b) ∧ EndsMalformed (f b) := by
  match x with
  | none => exact iff_of_false not_endsMalformed_none (by rintro ⟨b, h, -⟩; cases h)
  | some (.error e) =>
      apply iff_of_false
      · exact mt endsMalformed_error.1 (not_reportsMalformed_transport e)
      · rintro ⟨b, h, -⟩
        cases h
  | some (.ok b) =>
      constructor
      · intro h
        exact ⟨b, rfl, h⟩
      · rintro ⟨b', h, hends⟩
        cases h
        exact hends

theorem endsMalformed_decodeErrorResponse {deps : Dependencies} {status : ℕ} {headers : HeaderMap}
    {body : List UInt8} {now : SystemTime} :
    EndsMalformed (some (.error (decodeErrorResponse deps status headers body now)) :
      Future (Except Error α)) ↔ status ≠ 0 ∧ NamesMalformed deps body := by
  rw [endsMalformed_error, reportsMalformed_decodeErrorResponse]

theorem Uncoded.not_endsMalformed {result : Future (Except Error α)} (h : Uncoded result) :
    ¬ EndsMalformed result := by
  rintro ⟨err, herr, hreports⟩
  cases (h err herr).symm.trans hreports.1

/-- An attempt that reads its response to the end, in terms of what it makes of the bytes. -/
theorem endsMalformed_readAll {exchange : Exchange}
    {f : Response → List UInt8 → Future (Except Error α)} {P Q : List UInt8 → Prop}
    (hsuccess : ∀ resp bytes, isSuccess resp.status = true →
      (EndsMalformed (f resp bytes) ↔ P bytes))
    (hrefused : ∀ resp bytes, ¬ isSuccess resp.status →
      (EndsMalformed (f resp bytes) ↔ resp.status ≠ 0 ∧ Q bytes)) :
    EndsMalformed ((sendRaw exchange).andThen fun resp =>
        (resp.body.bytes.mapErr .transport).andThen (f resp)) ↔
      Accepted P exchange ∨ Refused Q exchange := by
  rw [sendRaw, endsMalformed_andThen]
  simp only [endsMalformed_andThen]
  constructor
  · rintro ⟨resp, hsend, bytes, hbytes, hends⟩
    by_cases h : isSuccess resp.status = true
    · exact .inl ⟨resp, bytes, ⟨hsend, hbytes⟩, h, (hsuccess resp bytes h).1 hends⟩
    · exact .inr ⟨resp, bytes, ⟨hsend, hbytes⟩, h, (hrefused resp bytes h).1 hends⟩
  · rintro (⟨resp, bytes, ⟨hsend, hbytes⟩, h, hP⟩ | ⟨resp, bytes, ⟨hsend, hbytes⟩, h, hQ⟩)
    · exact ⟨resp, hsend, bytes, hbytes, (hsuccess resp bytes h).2 hP⟩
    · exact ⟨resp, hsend, bytes, hbytes, (hrefused resp bytes h).2 hQ⟩

theorem not_accepted_false (exchange : Exchange) : ¬ Accepted (fun _ => False) exchange := by
  rintro ⟨_, _, _, _, h⟩
  exact h

theorem endsMalformed_health {deps : Dependencies} {exchange : Exchange} :
    EndsMalformed (Client.health deps exchange) ↔ Refused (NamesMalformed deps) exchange := by
  unfold Client.health
  refine (endsMalformed_readAll ?_ ?_).trans (or_iff_right (not_accepted_false exchange))
  · intro resp bytes hsuccess
    rw [if_pos hsuccess]
    exact iff_false_intro (not_endsMalformed_ok ())
  · intro resp bytes hnot
    rw [if_neg hnot, endsMalformed_decodeErrorResponse]

theorem endsMalformed_subscribeOnce {deps : Dependencies} {exchange : Exchange} :
    EndsMalformed (subscribeOnce deps exchange) ↔ Refused (NamesMalformed deps) exchange := by
  rw [subscribeOnce, sendRaw, endsMalformed_andThen]
  constructor
  · rintro ⟨resp, hsend, hends⟩
    by_cases hsuccess : isSuccess resp.status = true
    · -- after a 2xx status the handshake fails without a code
      rw [if_neg (not_not.2 hsuccess)] at hends
      refine absurd hends (Uncoded.not_endsMalformed ?_)
      dsimp only
      split_ifs
      · exact uncoded_andThen (uncoded_firstFrame _ _ _ _) (uncoded_startStream deps _)
      · exact uncoded_error rfl
    · rw [if_pos hsuccess, endsMalformed_andThen] at hends
      obtain ⟨bytes, hbytes, hends⟩ := hends
      rw [endsMalformed_decodeErrorResponse] at hends
      exact ⟨resp, bytes, ⟨hsend, hbytes⟩, hsuccess, hends⟩
  · rintro ⟨resp, bytes, ⟨hsend, hbytes⟩, hnot, hnames⟩
    refine ⟨resp, hsend, ?_⟩
    rw [if_pos hnot, endsMalformed_andThen]
    exact ⟨bytes, hbytes, endsMalformed_decodeErrorResponse.2 hnames⟩

theorem ne_zero_of_isSuccess {status : ℕ} (h : isSuccess status = true) : status ≠ 0 := by
  rintro rfl
  cases h

def ResponseType.Undecodable (ty : ResponseType α) (bytes : List UInt8) : Prop :=
  ∃ e, ty.fromSlice bytes = .error e

/-- The JSON path applies its cap whatever the status. -/
theorem endsMalformed_sendOnceJson {deps : Dependencies} {ty : ResponseType α}
    {exchange : Exchange} : EndsMalformed (sendOnceJson deps ty exchange) ↔
      Accepted (LargeOr ty.Undecodable) exchange ∨
        Refused (LargeOr (NamesMalformed deps)) exchange := by
  unfold sendOnceJson
  simp only [readCapped, Future.andThen_assoc]
  apply endsMalformed_readAll
  · intro resp bytes hsuccess
    have hne := ne_zero_of_isSuccess hsuccess
    by_cases hlarge : maxResponseBytes < bytes.length
    · rw [if_pos hlarge, Future.andThen_error, endsMalformed_error,
        reportsMalformed_malformedResponse]
      exact iff_of_true hne (.inl hlarge)
    · rw [if_neg hlarge, Future.andThen_ok, if_neg (not_not.2 hsuccess), LargeOr,
        or_iff_right hlarge, ResponseType.Undecodable]
      cases ty.fromSlice bytes with
      | ok value => exact iff_of_false (not_endsMalformed_ok _) (by rintro ⟨e, h⟩; cases h)
      | error e =>
          dsimp only
          rw [endsMalformed_error, reportsMalformed_malformedResponse]
          exact iff_of_true hne ⟨e, rfl⟩
  · intro resp bytes hnot
    by_cases hlarge : maxResponseBytes < bytes.length
    · rw [if_pos hlarge, Future.andThen_error, endsMalformed_error,
        reportsMalformed_malformedResponse, LargeOr, and_iff_left (.inl hlarge)]
    · rw [if_neg hlarge, Future.andThen_ok, if_pos hnot, endsMalformed_decodeErrorResponse, LargeOr,
        or_iff_right hlarge]

/-- A call that returns such an error got a response that satisfies `accepted` last. -/
def MeansAccepted (call : Call α) (accepted : UInt32 → Prop) : Prop :=
  ∀ err, call.phase = .returned (.error err) → ReportsMalformed err →
    ∃ attempt, call.calls.getLast? = some attempt ∧ accepted attempt

/-- The policy retries every attempt before this one, and not this one. -/
structure EndsLoop (client : Client) (f : UInt32 → Future (Except Error α)) (attempt : UInt32) :
    Prop where
  retried : ∀ i < attempt, ∃ err d, f i = some (.error err) ∧ client.retry i err = some d
  declined : ∀ err, f attempt = some (.error err) → client.retry attempt err = none

/-- The first attempt that is not retried does not get a response that satisfies `refused`, if it
lies within so many rounds. -/
def NeverEndsOn (client : Client) (f : UInt32 → Future (Except Error α)) (rounds : ℕ)
    (refused : UInt32 → Prop) : Prop :=
  ∀ attempt, attempt.toNat < rounds → EndsLoop client f attempt → ¬ refused attempt

theorem toNat_ofNat_of_continues {client : Client} {f : UInt32 → Future (Except Error α)} {m : ℕ}
    (h : ∀ i < m, (retryLoop client.retry f).Continues UInt32.ofNat i) {i : ℕ} (hi : i ≤ m) :
    (UInt32.ofNat i).toNat = i := by
  induction i with
  | zero => rfl
  | succ i ih =>
      have hnat := ih (Nat.le_of_succ_le hi)
      have hnext := (h i hi).2
      rw [retryLoop_next_ofNat, hnat] at hnext
      split_ifs at hnext with hlt
      rw [UInt32.toNat_ofNat', Nat.mod_eq_of_lt hlt]

theorem EndsLoop.continues {client : Client} {f : UInt32 → Future (Except Error α)}
    {attempt : UInt32} (h : EndsLoop client f attempt) {i : ℕ} (hi : i < attempt.toNat) :
    (retryLoop client.retry f).Continues UInt32.ofNat i := by
  have hbound := attempt.toNat_lt
  have hnat : (UInt32.ofNat i).toNat = i := by
    rw [UInt32.toNat_ofNat', Nat.mod_eq_of_lt (hi.trans hbound)]
  obtain ⟨err, d, hattempt, hretry⟩ := h.retried (.ofNat i) (by
    rw [UInt32.lt_iff_toNat_lt, hnat]
    exact hi)
  refine ⟨⟨_, err, d, hattempt, hretry, rfl⟩, ?_⟩
  rw [retryLoop_next_ofNat, hnat, if_pos (by omega)]

/-- At the attempt that ends its loop a call returns that attempt's result. -/
theorem EndsLoop.returned {client : Client} {f : UInt32 → Future (Except Error α)}
    {attempt : UInt32} (h : EndsLoop client f attempt) {r : Except Error α}
    (hr : f attempt = some r) {rounds : ℕ} (hlt : attempt.toNat < rounds) :
    (runWithRetry client f rounds).phase = .returned r ∧
      (runWithRetry client f rounds).calls.getLast? = some attempt := by
  have hleaves : (retryLoop client.retry f).Leaves (UInt32.ofNat attempt.toNat) r := by
    rw [UInt32.ofNat_toNat]
    refine ⟨hr, ?_⟩
    rintro err rfl
    exact h.declined err hr
  obtain ⟨hphase, hcalls⟩ :=
    RetryLoop.run_of_leaves_at _ rfl (fun i hi => h.continues hi) hleaves hlt
  refine ⟨hphase, ?_⟩
  rw [runWithRetry, hcalls, List.getLast?_map, List.range_succ, List.getLast?_concat,
    Option.map_some, UInt32.ofNat_toNat]

/-- A call that has returned got to the attempt that ends its loop. -/
theorem exists_endsLoop {client : Client} {f : UInt32 → Future (Except Error α)} {rounds : ℕ}
    {r : Except Error α} (h : (runWithRetry client f rounds).phase = .returned r) :
    ∃ attempt, attempt.toNat < rounds ∧ EndsLoop client f attempt ∧ f attempt = some r := by
  have hnext : ∀ i, (retryLoop client.retry f).next (.ofNat i) = some (.ofNat (i + 1)) ∨
      (retryLoop client.retry f).next (.ofNat i) = none := by
    intro i
    rw [retryLoop_next_ofNat]
    split_ifs
    · exact .inl rfl
    · exact .inr rfl
  obtain ⟨m, hm, hbefore, hr, hdeclined⟩ := RetryLoop.exists_of_returned _ rfl hnext h
  have hnat := toNat_ofNat_of_continues hbefore le_rfl
  refine ⟨.ofNat m, by rwa [hnat], ⟨?_, ?_⟩, hr⟩
  · intro i hi
    rw [UInt32.lt_iff_toNat_lt, hnat] at hi
    obtain ⟨⟨_, err, d, hattempt, hretry, -⟩, -⟩ := hbefore i.toNat hi
    rw [UInt32.ofNat_toNat] at hattempt hretry
    exact ⟨err, d, hattempt, hretry⟩
  · intro err herr
    exact hdeclined err (Option.some.inj (hr.symm.trans herr))

theorem runWithRetry_means_iff {client : Client} {f : UInt32 → Future (Except Error α)}
    {rounds : ℕ} {accepted refused : UInt32 → Prop}
    (hends : ∀ attempt, EndsMalformed (f attempt) → accepted attempt ∨ refused attempt)
    (hrefused : ∀ attempt, refused attempt → EndsMalformed (f attempt))
    (hnot : ∀ attempt, accepted attempt → ¬ refused attempt) :
    MeansAccepted (runWithRetry client f rounds) accepted ↔
      NeverEndsOn client f rounds refused := by
  constructor
  · intro h attempt hlt hend hr
    obtain ⟨err, herr, hreports⟩ := hrefused attempt hr
    obtain ⟨hphase, hlast⟩ := hend.returned herr hlt
    obtain ⟨attempt', hlast', haccepted⟩ := h err hphase hreports
    obtain rfl := Option.some.inj (hlast.symm.trans hlast')
    exact hnot attempt haccepted hr
  · intro h err hphase hreports
    obtain ⟨attempt, hlt, hend, hr⟩ := exists_endsLoop hphase
    refine ⟨attempt, (hend.returned hr hlt).2, ?_⟩
    exact (hends attempt ⟨err, hr, hreports⟩).resolve_right (h attempt hlt hend)

/-- The checks before the first attempt change nothing: their errors do not have the code. -/
theorem preflighted_means_iff {check : Except Error Unit} (hcheck : RejectsOnly check)
    {call : Call α} {accepted : UInt32 → Prop} {condition : Prop}
    (h : MeansAccepted call accepted ↔ condition) :
    MeansAccepted (preflighted check call) accepted ↔ (check = .ok () → condition) := by
  match check with
  | .ok () => exact h.trans ⟨fun hc _ => hc, fun hc => hc rfl⟩
  | .error err =>
      obtain ⟨message, rfl⟩ := hcheck err rfl
      apply iff_of_true
      · intro err' hphase hreports
        cases hphase
        exact absurd hreports (not_reportsMalformed_preflight message)
      · intro hok
        cases hok

/-- The wrapped error has the code and the status of the error inside. -/
theorem meansAccepted_mapErr {call : Call α} {accepted : UInt32 → Prop} :
    MeansAccepted (mapErr .subscribeSetup call) accepted ↔ MeansAccepted call accepted := by
  obtain ⟨calls, sleeps, phase⟩ := call
  match phase with
  | .ready _ | .waiting | .overflowed | .returned (.ok _) => exact Iff.rfl
  | .returned (.error err) =>
      constructor
      · intro h err' hphase hreports
        cases hphase
        exact h (.subscribeSetup err) rfl hreports
      · intro h err' hphase hreports
        cases hphase
        exact h err rfl hreports

theorem sendJson_means_iff (client : Client) (deps : Dependencies) (ty : ResponseType α)
    (body : List UInt8) (network : Network) (rounds : ℕ) :
    MeansAccepted (sendJson client deps ty body network rounds)
        (fun attempt => Accepted (LargeOr ty.Undecodable) (network body attempt)) ↔
      NeverEndsOn client (fun attempt => sendOnceJson deps ty (network body attempt)) rounds
        (fun attempt => Refused (LargeOr (NamesMalformed deps)) (network body attempt)) :=
  runWithRetry_means_iff (fun _ => endsMalformed_sendOnceJson.1)
    (fun _ h => endsMalformed_sendOnceJson.2 (.inr h)) (fun _ h => h.not_refused)

/-- On every endpoint, an error that reports a malformed response means that the last response was
a 2xx with a body over the cap or undecodable, exactly if the first response that is not retried is
not one outside 2xx whose body names the code or, on a JSON endpoint, is over the cap. The bodies of
`health` and of the handshake are never decoded under this code, whatever it is called to be
undecodable. -/
theorem malformed_means_accepted_iff (client : Client) (deps : Dependencies) (network : Network)
    (rounds : ℕ) (undecodable : List UInt8 → Prop) :
    (∀ req : PublishRequest, MeansAccepted (client.publish deps network req rounds)
        (fun attempt => Accepted (LargeOr (Client.publishResponses deps).Undecodable)
          (network (req.toVec deps) attempt)) ↔
      (req.validate deps.printable = .ok () → NeverEndsOn client
        (fun attempt =>
          sendOnceJson deps (Client.publishResponses deps) (network (req.toVec deps) attempt))
        rounds
        (fun attempt => Refused (LargeOr (NamesMalformed deps))
          (network (req.toVec deps) attempt)))) ∧
    (∀ req : SearchRequest, MeansAccepted (client.search deps network req rounds)
        (fun attempt => Accepted (LargeOr (Client.searchResponses deps).Undecodable)
          (network (req.toVec deps) attempt)) ↔
      (req.validate = .ok () → NeverEndsOn client
        (fun attempt =>
          sendOnceJson deps (Client.searchResponses deps) (network (req.toVec deps) attempt))
        rounds
        (fun attempt => Refused (LargeOr (NamesMalformed deps))
          (network (req.toVec deps) attempt)))) ∧
    (∀ req : LintRequest, MeansAccepted (client.lint deps network req rounds)
        (fun attempt => Accepted (LargeOr (Client.lintResponses deps).Undecodable)
          (network (req.toVec deps) attempt)) ↔
      (req.validate = .ok () → NeverEndsOn client
        (fun attempt =>
          sendOnceJson deps (Client.lintResponses deps) (network (req.toVec deps) attempt))
        rounds
        (fun attempt => Refused (LargeOr (NamesMalformed deps))
          (network (req.toVec deps) attempt)))) ∧
    (∀ req : SubscribeRequest, MeansAccepted (client.subscribe deps network req rounds)
        (fun attempt => Accepted (LargeOr undecodable) (network (req.toVec deps) attempt)) ↔
      (req.validate = .ok () → NeverEndsOn client
        (fun attempt => subscribeOnce deps (network (req.toVec deps) attempt)) rounds
        (fun attempt => Refused (NamesMalformed deps) (network (req.toVec deps) attempt)))) ∧
    ∀ exchange, (∀ err, Client.health deps exchange = some (.error err) → ReportsMalformed err →
        Accepted (LargeOr undecodable) exchange) ↔
      ¬ Refused (NamesMalformed deps) exchange := by
  refine ⟨?_, ?_, ?_, ?_, ?_⟩
  · intro req
    exact preflighted_means_iff (req.rejectsOnly_validate _) (sendJson_means_iff _ _ _ _ _ _)
  · intro req
    exact preflighted_means_iff req.rejectsOnly_validate (sendJson_means_iff _ _ _ _ _ _)
  · intro req
    exact preflighted_means_iff req.rejectsOnly_validate (sendJson_means_iff _ _ _ _ _ _)
  · intro req
    apply preflighted_means_iff req.rejectsOnly_validate
    rw [meansAccepted_mapErr]
    exact runWithRetry_means_iff (fun _ h => .inr (endsMalformed_subscribeOnce.1 h))
      (fun _ h => endsMalformed_subscribeOnce.2 h) (fun _ h => h.not_refused)
  · intro exchange
    constructor
    · intro h hrefused
      obtain ⟨err, herr, hreports⟩ := endsMalformed_health.2 hrefused
      exact (h err herr hreports).not_refused hrefused
    · intro h err herr hreports
      exact absurd (endsMalformed_health.1 ⟨err, herr, hreports⟩) h

/-- Without retries the first attempt ends the loop. -/
theorem endsLoop_noRetry (f : UInt32 → Future (Except Error α)) : EndsLoop ⟨noRetry⟩ f 0 := by
  refine ⟨?_, fun _ _ => rfl⟩
  intro i hi
  cases hi

def refusals : Network := fun _ _ => received 503 (fun _ => none) (largeBody 1048577) 0

/-- A publish that it refuses is reported as accepted with an unusable answer. -/
theorem not_meansAccepted_refusals :
    ¬ MeansAccepted (Client.publish ⟨noRetry⟩ .sample refusals .sample 1)
      (fun attempt => Accepted (LargeOr (Client.publishResponses .sample).Undecodable)
        (refusals (PublishRequest.sample.toVec .sample) attempt)) := by
  have hrefused : ∀ body attempt,
      Refused (LargeOr (NamesMalformed .sample)) (refusals body attempt) := by
    intro body attempt
    refine ⟨_, _, ⟨rfl, rfl⟩, by decide, by decide, .inl ?_⟩
    rw [length_largeBody]
    decide
  intro h
  have hends : EndsMalformed (sendOnceJson .sample (Client.publishResponses .sample)
      (refusals (PublishRequest.sample.toVec .sample) 0)) :=
    endsMalformed_sendOnceJson.2 (.inr (hrefused _ 0))
  obtain ⟨err, herr, hreports⟩ := hends
  have hphase : (Client.publish ⟨noRetry⟩ .sample refusals .sample 1).phase =
      .returned (.error err) := by
    have hcheck : PublishRequest.sample.validate Dependencies.sample.printable = .ok () := by decide
    rw [Client.publish, hcheck, preflighted, sendJson]
    refine ((endsLoop_noRetry _).returned ?_ Nat.zero_lt_one).1
    exact herr
  obtain ⟨attempt, -, haccepted⟩ := h err hphase hreports
  exact haccepted.not_refused (hrefused _ attempt)

end Semantik
