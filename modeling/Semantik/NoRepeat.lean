import Semantik.PublishPreflight
import Semantik.RetryLaw
import Semantik.Subscribe

/-!
# No request is repeated once the server may have acted on it

An attempt that got a 2xx response, or whose fate is unknown because the transport failed, ends in
a result that `TransientRetry` does not retry, whatever went wrong after that. So it is the last
attempt of its call.
-/

namespace Semantik

variable {α : Type}

/-- The connection failed, before the response or within its body. -/
def Broke (x : Exchange) (e : ReqwestError) : Prop :=
  x.send = some (.error e) ∨ ∃ resp, x.send = some (.ok resp) ∧ resp.body.fin = .error e

/-- The server accepted the request, or its fate is unknown. -/
def MayHaveActed (x : Exchange) : Prop :=
  (∃ resp, x.send = some (.ok resp) ∧ isSuccess resp.status = true) ∨ ∃ e, Broke x e

/-- This is the last attempt of the call, and its result is what the caller gets. -/
def IsLastAttempt (call : Call α) (attempt : UInt32) (result : Future (Except Error α)) : Prop :=
  ∃ earlier, call.calls = earlier ++ [attempt] ∧ attempt ∉ earlier ∧
    call.phase = result.elim .waiting .returned

def IsFinal (result : Future (Except Error α)) : Prop :=
  ∀ err, result = some (.error err) → ¬ err.IsTransient

theorem isFinal_none : IsFinal (none : Future (Except Error α)) := by
  intro err herr
  cases herr

theorem isFinal_ok (a : α) : IsFinal (some (.ok a)) := by
  intro err herr
  cases herr

theorem isFinal_error {err : Error} (h : ¬ err.IsTransient) :
    IsFinal (some (.error err) : Future (Except Error α)) := by
  intro err' herr
  cases herr
  exact h

@[simp] theorem not_isTransient_transport (e : ReqwestError) : ¬ (Error.transport e).IsTransient := by
  rintro ⟨_, _, _, _, _, ⟨⟩, _⟩

@[simp] theorem not_isTransient_malformedResponse (message : String) (status : ℕ) :
    ¬ (Error.malformedResponse message status).IsTransient := by
  rw [Error.malformedResponse, Error.isTransient_api]
  decide

theorem isFinal_andThen {β : Type} {x : Future (Except Error β)}
    {f : β → Future (Except Error α)} (hx : IsFinal x) (hf : ∀ b, x = some (.ok b) → IsFinal (f b)) :
    IsFinal (x.andThen f) := by
  match x with
  | none => exact isFinal_none
  | some (.error err) => exact isFinal_error (hx err rfl)
  | some (.ok b) => exact hf b rfl

theorem isFinal_mapErr_transport (x : Future (Except ReqwestError α)) :
    IsFinal (x.mapErr .transport) := by
  match x with
  | none => exact isFinal_none
  | some (.error e) => exact isFinal_error (not_isTransient_transport e)
  | some (.ok a) => exact isFinal_ok a

theorem isFinal_readCapped (resp : Response) (max : ℕ) : IsFinal (readCapped resp max) := by
  apply isFinal_andThen (isFinal_mapErr_transport _)
  intro bytes _
  split_ifs
  · exact isFinal_error (not_isTransient_malformedResponse _ _)
  · exact isFinal_ok bytes

theorem bytes_of_broken {body : Body} {e : ReqwestError} (h : body.fin = .error e) :
    body.bytes = some (.error e) := by
  rw [Body.bytes, h]

/-- An attempt ends for good if it does after a 2xx status, and where another body breaks. -/
theorem isFinal_sendRaw_andThen {x : Exchange} {f : Response → Future (Except Error α)}
    (h : MayHaveActed x) (hsuccess : ∀ resp, isSuccess resp.status = true → IsFinal (f resp))
    (hbroken : ∀ resp e, ¬ isSuccess resp.status → resp.body.fin = .error e → IsFinal (f resp)) :
    IsFinal ((sendRaw x).andThen f) := by
  apply isFinal_andThen (isFinal_mapErr_transport _)
  intro resp hresp
  rw [Future.mapErr_eq_ok_iff] at hresp
  obtain ⟨resp', hsend, hstatus⟩ | ⟨e, hsend | ⟨resp', hsend, hfin⟩⟩ := h
  · rw [hsend] at hresp
    cases hresp
    exact hsuccess resp hstatus
  · rw [hsend] at hresp
    cases hresp
  · rw [hsend] at hresp
    cases hresp
    by_cases hstatus : isSuccess resp.status = true
    · exact hsuccess resp hstatus
    · exact hbroken resp e hstatus hfin

/-- Whatever comes of the body, a 2xx status or a connection that fails ends a JSON attempt for
good. -/
theorem isFinal_sendOnceJson (deps : Dependencies) (ty : ResponseType α) {x : Exchange}
    (h : MayHaveActed x) : IsFinal (sendOnceJson deps ty x) := by
  refine isFinal_sendRaw_andThen h ?_ ?_
  · intro resp hstatus
    apply isFinal_andThen (isFinal_readCapped resp _)
    intro bytes _
    rw [if_neg (not_not.2 hstatus)]
    split
    · exact isFinal_error (not_isTransient_malformedResponse _ _)
    · exact isFinal_ok _
  · intro resp e _ hfin
    rw [readCapped, bytes_of_broken hfin]
    exact isFinal_error (not_isTransient_transport e)

def Uncoded (result : Future (Except Error α)) : Prop :=
  ∀ err, result = some (.error err) → err.code = none

theorem uncoded_none : Uncoded (none : Future (Except Error α)) := by
  intro err herr
  cases herr

theorem uncoded_ok (a : α) : Uncoded (some (.ok a)) := by
  intro err herr
  cases herr

theorem uncoded_error {err : Error} (h : err.code = none) :
    Uncoded (some (.error err) : Future (Except Error α)) := by
  intro err' herr
  cases herr
  exact h

theorem uncoded_andThen {β : Type} {x : Future (Except Error β)}
    {f : β → Future (Except Error α)} (hx : Uncoded x) (hf : ∀ b, Uncoded (f b)) :
    Uncoded (x.andThen f) := by
  match x with
  | none => exact uncoded_none
  | some (.error err) => exact uncoded_error (hx err rfl)
  | some (.ok b) => exact hf b

theorem Uncoded.isFinal {result : Future (Except Error α)} (h : Uncoded result) :
    IsFinal result := by
  rintro err herr ⟨code, _, _, _, _, rfl, -⟩
  cases h _ herr

theorem uncoded_firstFrame (fin : BodyEnd) (events : List BodyEvent) (scanner : Scanner)
    (pending : List Frame) : Uncoded (firstFrame fin events scanner pending) := by
  fun_induction firstFrame fin events scanner pending with
  | case1 | case7 => exact uncoded_ok _
  | case2 _ _ ih => exact ih
  | case3 _ _ _ _ _ _ ih => exact ih
  | case5 => exact uncoded_none
  | case4 | case6 | case8 | case9 => exact uncoded_error rfl

theorem uncoded_startStream (deps : Dependencies) (requestId : Option String) (hs : Handshake) :
    Uncoded (startStream deps requestId hs) := by
  unfold startStream
  split_ifs
  · exact uncoded_error rfl
  · split
    · exact uncoded_error rfl
    · split_ifs
      · exact uncoded_error rfl
      · exact uncoded_ok _

theorem isFinal_subscribeOnce (deps : Dependencies) {x : Exchange} (h : MayHaveActed x) :
    IsFinal (subscribeOnce deps x) := by
  refine isFinal_sendRaw_andThen h ?_ ?_
  · intro resp hstatus
    rw [if_neg (not_not.2 hstatus)]
    dsimp only
    split_ifs
    · exact (uncoded_andThen (uncoded_firstFrame _ _ _ _) (uncoded_startStream deps _)).isFinal
    · exact (uncoded_error rfl).isFinal
  · intro resp e hstatus hfin
    rw [if_pos hstatus, bytes_of_broken hfin]
    exact isFinal_error (not_isTransient_transport e)

theorem isLastAttempt_of_isFinal {n attempt : UInt32} {f : UInt32 → Future (Except Error α)}
    {rounds : ℕ} (hmem : attempt ∈ (runWithRetry (.withBudget n) f rounds).calls)
    (h : IsFinal (f attempt)) :
    IsLastAttempt (runWithRetry (.withBudget n) f rounds) attempt (f attempt) := by
  apply RetryLoop.last_of_not_retried _ hmem
  intro d hd
  obtain ⟨err, d', hattempt, hretry, -⟩ := hd
  exact h err hattempt ((TransientRetry.shouldRetry_eq_some_iff _ _ _ _).1 hretry).2.1

theorem isLastAttempt_sendJson {n attempt : UInt32} {deps : Dependencies} {ty : ResponseType α}
    {body : List UInt8} {network : Network} {rounds : ℕ} {check : Except Error Unit}
    (hmem : attempt ∈
      (preflighted check (sendJson (.withBudget n) deps ty body network rounds)).calls)
    (h : MayHaveActed (network body attempt)) :
    IsLastAttempt (preflighted check (sendJson (.withBudget n) deps ty body network rounds)) attempt
      (sendOnceJson deps ty (network body attempt)) := by
  match check with
  | .error err => cases hmem
  | .ok () => exact isLastAttempt_of_isFinal hmem (isFinal_sendOnceJson deps ty h)

theorem calls_mapErr (g : Error → Error) (call : Call α) : (mapErr g call).calls = call.calls := by
  unfold mapErr
  split <;> rfl

theorem IsLastAttempt.mapErr {call : Call α} {attempt : UInt32}
    {result : Future (Except Error α)} (h : IsLastAttempt call attempt result)
    (g : Error → Error) : IsLastAttempt (mapErr g call) attempt (result.mapErr g) := by
  obtain ⟨earlier, hcalls, hnot, hphase⟩ := h
  refine ⟨earlier, by rw [calls_mapErr, hcalls], hnot, ?_⟩
  obtain ⟨calls, sleeps, phase⟩ := call
  dsimp only at hphase
  subst hphase
  match result with
  | none => rfl
  | some (.ok a) => rfl
  | some (.error err) => rfl

/-- On every endpoint with retries, an attempt after which the server may have acted is the last
one, and the caller gets its result. -/
theorem no_repeat (n : UInt32) (deps : Dependencies) (network : Network) (rounds : ℕ)
    (attempt : UInt32) :
    (∀ req : PublishRequest,
      attempt ∈ (Client.publish (.withBudget n) deps network req rounds).calls →
      let result := sendOnceJson deps (Client.publishResponses deps) (network (req.toVec deps) attempt)
      MayHaveActed (network (req.toVec deps) attempt) →
      IsLastAttempt (Client.publish (.withBudget n) deps network req rounds) attempt result) ∧
    (∀ req : SearchRequest,
      attempt ∈ (Client.search (.withBudget n) deps network req rounds).calls →
      let result := sendOnceJson deps (Client.searchResponses deps) (network (req.toVec deps) attempt)
      MayHaveActed (network (req.toVec deps) attempt) →
      IsLastAttempt (Client.search (.withBudget n) deps network req rounds) attempt result) ∧
    (∀ req : LintRequest,
      attempt ∈ (Client.lint (.withBudget n) deps network req rounds).calls →
      let result := sendOnceJson deps (Client.lintResponses deps) (network (req.toVec deps) attempt)
      MayHaveActed (network (req.toVec deps) attempt) →
      IsLastAttempt (Client.lint (.withBudget n) deps network req rounds) attempt result) ∧
    (∀ req : SubscribeRequest,
      attempt ∈ (Client.subscribe (.withBudget n) deps network req rounds).calls →
      let result := subscribeOnce deps (network (req.toVec deps) attempt)
      MayHaveActed (network (req.toVec deps) attempt) →
      IsLastAttempt (Client.subscribe (.withBudget n) deps network req rounds) attempt
        (result.mapErr .subscribeSetup)) := by
  refine ⟨?_, ?_, ?_, ?_⟩
  · exact fun req hmem hacted => isLastAttempt_sendJson hmem hacted
  · exact fun req hmem hacted => isLastAttempt_sendJson hmem hacted
  · exact fun req hmem hacted => isLastAttempt_sendJson hmem hacted
  · intro req hmem result hacted
    unfold Client.subscribe at hmem ⊢
    match hcheck : req.validate with
    | .error err =>
        rw [hcheck] at hmem
        cases hmem
    | .ok () =>
        rw [hcheck] at hmem
        rw [preflighted, calls_mapErr] at hmem
        exact (isLastAttempt_of_isFinal hmem (isFinal_subscribeOnce deps hacted)).mapErr _

def busyThen (x : Exchange) : Network := fun _ attempt =>
  if attempt = 0 then ⟨some (.ok ⟨503, fun _ => none, ⟨[], .eof⟩⟩), 0⟩ else x

/-- The connection is reset, or the answer is a page that no endpoint can use. -/
theorem no_repeat_busyThen :
    let reset : Exchange := ⟨some (.error ⟨"connection reset"⟩), 0⟩
    let page : Exchange := ⟨some (.ok ⟨200, fun _ => none, ⟨[.chunk (asBytes "<p>")], .eof⟩⟩), 0⟩
    (1 ∈ (Client.publish (.withBudget 3) .sample (busyThen reset) .sample 5).calls ∧
      MayHaveActed reset ∧
      IsLastAttempt (Client.publish (.withBudget 3) .sample (busyThen reset) .sample 5) 1
        (sendOnceJson .sample (Client.publishResponses .sample) reset)) ∧
    1 ∈ (Client.subscribe (.withBudget 3) .sample (busyThen page) ⟨"q", "n", "m", 1⟩ 5).calls ∧
      MayHaveActed page ∧
      IsLastAttempt (Client.subscribe (.withBudget 3) .sample (busyThen page) ⟨"q", "n", "m", 1⟩ 5)
        1 ((subscribeOnce .sample page).mapErr .subscribeSetup) := by
  intro reset page
  have hreset : MayHaveActed reset := .inr ⟨_, .inl rfl⟩
  have hpage : MayHaveActed page := .inl ⟨_, rfl, by decide⟩
  have hpublish : 1 ∈ (Client.publish (.withBudget 3) .sample (busyThen reset) .sample 5).calls := by
    decide
  have hsubscribe : 1 ∈ (Client.subscribe (.withBudget 3) .sample (busyThen page)
      ⟨"q", "n", "m", 1⟩ 5).calls := by
    decide
  exact ⟨⟨hpublish, hreset, (no_repeat 3 .sample _ 5 1).1 .sample hpublish hreset⟩,
    hsubscribe, hpage, (no_repeat 3 .sample _ 5 1).2.2.2 _ hsubscribe hpage⟩

end Semantik
