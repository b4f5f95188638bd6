import Semantik.ConcurrentCalls
import Semantik.ErrorPaths
import Semantik.PublishPreflight

/-!
# Every call comes to an end

A call whose own exchanges come to an end, under a policy that gives up at some attempt, returns
after as many rounds of its own, even if the other calls never do. What it has returned then stays,
and it makes no more attempts.
-/

namespace Semantik

/-- The response or a failure arrives, and the body of the response does not stay open. -/
structure Settles (x : Exchange) : Prop where
  send : x.send ≠ none
  body : ∀ resp, x.send = some (.ok resp) → resp.body.fin ≠ .idle

namespace Future

variable {ε α β : Type} {x : Future (Except ε α)}

theorem andThen_ne_none {f : α → Future (Except ε β)} (hx : x ≠ none)
    (hf : ∀ a, x = some (.ok a) → f a ≠ none) : x.andThen f ≠ none := by
  match x with
  | none => exact absurd rfl hx
  | some (.error e) => simp
  | some (.ok a) => exact hf a rfl

theorem mapErr_ne_none {f : ε → β} (hx : x ≠ none) : x.mapErr f ≠ none :=
  mt Option.map_eq_none_iff.1 hx

end Future

variable {x : Exchange}

theorem bytes_ne_none {body : Body} (h : body.fin ≠ .idle) : body.bytes ≠ none := by
  unfold Body.bytes
  cases hfin : body.fin with
  | eof => simp
  | error e => simp
  | idle => exact absurd hfin h

/-- What every attempt does first resolves. -/
theorem Settles.sendRaw_andThen {α : Type} (h : Settles x)
    {f : Response → Future (Except Error α)} (hf : ∀ resp, resp.body.fin ≠ .idle → f resp ≠ none) :
    (sendRaw x).andThen f ≠ none := by
  refine Future.andThen_ne_none (Future.mapErr_ne_none h.send) fun resp hresp => ?_
  exact hf resp (h.body resp (Future.mapErr_eq_ok_iff.1 hresp))

theorem Settles.sendOnceJson {α : Type} (h : Settles x) (deps : Dependencies)
    (ty : ResponseType α) : sendOnceJson deps ty x ≠ none := by
  refine h.sendRaw_andThen fun resp hfin => ?_
  refine Future.andThen_ne_none ?_ fun bytes _ => ?_
  · refine Future.andThen_ne_none (Future.mapErr_ne_none (bytes_ne_none hfin)) fun bytes _ => ?_
    split_ifs <;> simp
  · split_ifs
    · cases ty.fromSlice bytes <;> simp
    · simp

theorem Settles.health (h : Settles x) (deps : Dependencies) : Client.health deps x ≠ none := by
  refine h.sendRaw_andThen fun resp hfin => ?_
  refine Future.andThen_ne_none (Future.mapErr_ne_none (bytes_ne_none hfin)) fun bytes _ => ?_
  split_ifs <;> simp

/-- The handshake reads no further than the end of the body. -/
theorem firstFrame_ne_none {fin : BodyEnd} (h : fin ≠ .idle) (events : List BodyEvent)
    (scanner : Scanner) (pending : List Frame) : firstFrame fin events scanner pending ≠ none := by
  fun_induction firstFrame fin events scanner pending with
  | _ => simp_all

theorem startStream_ne_none (deps : Dependencies) (requestId : Option String) (hs : Handshake) :
    startStream deps requestId hs ≠ none := by
  unfold startStream
  split_ifs
  · simp
  · cases deps.subscribedEvent hs.first.data with
    | error e => simp
    | ok sub =>
        dsimp only
        split_ifs <;> simp

theorem Settles.subscribeOnce (h : Settles x) (deps : Dependencies) :
    subscribeOnce deps x ≠ none := by
  refine h.sendRaw_andThen fun resp hfin => ?_
  dsimp only
  split_ifs
  · refine Future.andThen_ne_none (firstFrame_ne_none hfin _ _ _) fun hs _ => ?_
    exact startStream_ne_none deps _ hs
  · simp
  · exact Future.andThen_ne_none (Future.mapErr_ne_none (bytes_ne_none hfin)) fun _ _ => by simp

theorem Settles.once (h : Settles x) (deps : Dependencies) (call : ApiCall) :
    call.once deps x ≠ none := by
  cases call with
  | publish req => exact h.sendOnceJson deps _
  | search req => exact h.sendOnceJson deps _
  | lint req => exact h.sendOnceJson deps _
  | subscribe req => exact h.subscribeOnce deps
  | health => exact h.health deps

def RetryPolicy.DeclinesAt (policy : RetryPolicy) (n : UInt32) : Prop := ∀ err, policy n err = none

theorem TransientRetry.declinesAt (n : UInt32) : (TransientRetry.new n).shouldRetry.DeclinesAt n := by
  intro err
  rw [← Option.not_isSome_iff_eq_none, isSome_shouldRetry]
  exact fun h => absurd h.1 (UInt32.lt_irrefl n)

theorem givesUpAt_retryLoop {α : Type} {policy : RetryPolicy} {n : UInt32}
    (h : policy.DeclinesAt n) (f : UInt32 → Future (Except Error α)) :
    (retryLoop policy f).GivesUpAt UInt32.toNat n.toNat where
  start := rfl
  next _ _ := toNat_of_next
  retry k err d hk hretry := by
    have hlt : k.toNat < n.toNat := by
      refine lt_of_le_of_ne hk fun heq => ?_
      obtain rfl := UInt32.toNat_inj.1 heq
      cases (h err).symm.trans hretry
    have hn := n.toNat_lt
    refine ⟨hlt, ?_⟩
    change (if k.toNat + 1 < 2 ^ 32 then some (k + 1) else none) ≠ none
    rw [if_pos (by omega)]
    exact Option.some_ne_none _

/-- `health` gives up at once. -/
theorem ApiCall.declinesAt_policy {retry : RetryPolicy} {n : UInt32} (h : retry.DeclinesAt n)
    (call : ApiCall) : (call.policy retry).DeclinesAt n := by
  cases call with
  | health => exact fun err => rfl
  | _ => exact h

namespace ApiCall

/-- A call that has returned looks so from outside. -/
theorem exists_returned_shown (call : ApiCall) {state : Call call.Result}
    {r : Except Error call.Result} (h : state.phase = .returned r) :
    ∃ r', (call.shown state).phase = .returned r' := by
  cases call with
  | subscribe req =>
      rw [shown]
      cases req.validate with
      | error err => exact ⟨.error err, rfl⟩
      | ok u =>
          obtain ⟨calls, sleeps, phase⟩ := state
          obtain rfl := h
          cases r with
          | error err => exact ⟨.error (.subscribeSetup err), rfl⟩
          | ok sub => exact ⟨.ok sub, rfl⟩
  | _ => exact ⟨r, h⟩

end ApiCall

namespace System

variable {ι σ H : Type} {sys : System ι σ H} {i : ι} {n : UInt32}

open RetryLoop

def SettlesFor (sys : System ι σ H) (i : ι) : Prop :=
  ∀ s, Settles (sys.answer s i)

/-- The HTTP library gives up a request whose time is over. -/
def KeepsTimeouts (sys : System ι σ H) : Prop :=
  ∀ s http req, req.timeout ≠ none → Settles (sys.serve s http req).1

/-- Handshakes apart, a client with an HTTP client of its own bounds the time of its requests. -/
theorem SettlesFor.of_keepsTimeouts {lib : HttpLibrary H} {settings : List (Setting H)} {key : String}
    (hconfigured : Configured lib settings key (sys.inner i))
    (hown : lastOf Setting.asHttpClient settings = none)
    (hcall : ∀ req, sys.call i ≠ .subscribe req) (hkeeps : sys.KeepsTimeouts) :
    sys.SettlesFor i := by
  have htimeout : (sys.inner i).readTimeout ≠ none := by
    obtain ⟨-, -, -, -, hhttp⟩ := hconfigured
    generalize (sys.inner i).http = http at hhttp
    generalize (sys.inner i).readTimeout = t at hhttp
    cases hhttp with
    | injected hinjected => cases hown.symm.trans hinjected
    | managed => exact Option.some_ne_none _
  have hrequest : (sys.request i).timeout = (sys.inner i).readTimeout := by
    unfold request
    cases hkind : sys.call i with
    | subscribe req => exact absurd hkind (hcall req)
    | _ => rfl
  exact fun s => hkeeps s _ _ (hrequest ▸ htimeout)

theorem nearing_init : Nearing UInt32.toNat n.toNat 0 (sys.init.state i) := by
  unfold init
  dsimp only
  cases (sys.call i).validate sys.deps.printable with
  | error err => exact .returned _ rfl (Nat.zero_le _)
  | ok u => exact .ready 0 rfl rfl (Nat.zero_le _) rfl

variable [DecidableEq ι]

/-- After every run the call is at the attempt of its number of rounds, or has returned. -/
theorem nearing_run (hpolicy : (sys.inner i).retry.DeclinesAt n) (hserve : sys.SettlesFor i)
    (schedule : List ι) :
    Nearing UInt32.toNat n.toNat (schedule.count i) ((sys.run schedule).state i) := by
  induction schedule using List.reverseRecOn with
  | nil => exact nearing_init
  | append_singleton schedule j ih =>
      rw [run_concat, List.count_append]
      by_cases hij : j = i
      · subst hij
        rw [List.count_singleton_self]
        rw [sys.state_step_self]
        refine nearing_step _ ?_ ih fun k _ => (hserve _).once sys.deps _
        exact givesUpAt_retryLoop ((sys.call j).declinesAt_policy hpolicy) _
      · rw [sys.state_step_of_ne _ hij, List.count_singleton, if_neg (by simpa using hij)]
        exact ih

/-- A call that has returned stays as it is. -/
theorem state_run_append {schedule : List ι} {r : Except Error (sys.call i).Result}
    (h : ((sys.run schedule).state i).phase = .returned r) (later : List ι) :
    (sys.run (schedule ++ later)).state i = (sys.run schedule).state i := by
  induction later using List.reverseRecOn with
  | nil => rw [List.append_nil]
  | append_singleton later j ih =>
      rw [← List.append_assoc, run_concat]
      by_cases hij : j = i
      · subst hij
        rw [sys.state_step_self, ih, step_halted _ (by simp [h])]
      · rw [sys.state_step_of_ne _ hij, ih]

/-- The server has got one request of the call for each of its attempts. -/
theorem length_log (schedule : List ι) :
    ((sys.run schedule).log.filter (·.1 = i)).length =
      ((sys.run schedule).state i).calls.length := by
  obtain ⟨answers, h⟩ := sys.exists_alone_run schedule i
  rw [← List.length_map Prod.snd, h.log, List.length_map]

/-- A call that has come to its end stays there. -/
theorem exists_final {schedule : List ι} {m : ℕ}
    (h : Nearing UInt32.toNat m (schedule.count i) ((sys.run schedule).state i))
    (hm : m < schedule.count i) : ∃ r, ∀ later, let w := sys.run (schedule ++ later)
      ((sys.call i).shown (w.state i)).phase = .returned r ∧
        (w.log.filter (·.1 = i)).length ≤ m + 1 := by
  obtain ⟨r, hr⟩ := h.exists_returned hm
  obtain ⟨r', hr'⟩ := (sys.call i).exists_returned_shown hr
  refine ⟨r', ?_⟩
  intro later w
  have hstate : w.state i = (sys.run schedule).state i := state_run_append hr later
  rw [length_log, hstate]
  exact ⟨hr', h.length_calls_le⟩

/-- Whatever the other calls do, and even if theirs never settle: a call whose exchanges settle has
returned once its rounds outnumber its budget. Its result is then final, and there is never more than
one attempt of it beyond the budget. -/
theorem call_returns (hpolicy : (sys.inner i).retry.DeclinesAt n) (hserve : sys.SettlesFor i)
    {schedule : List ι} (h : n.toNat < schedule.count i) :
    ∃ r, ∀ later, let w := sys.run (schedule ++ later)
      ((sys.call i).shown (w.state i)).phase = .returned r ∧
        (w.log.filter (·.1 = i)).length ≤ n.toNat + 1 :=
  exists_final (nearing_run hpolicy hserve schedule) h

def sample : System Bool Unit Unit where
  inner _ := ⟨(), "u", ⟨bearer "k", true⟩, (TransientRetry.new 2).shouldRetry, none⟩
  call first := if first then .publish .sample else .health
  platform := samplePlatform
  deps := .sample
  serve _ _ req :=
    (if req.authorization.isSome then received 503 (fun _ => none) [] 0 else ⟨none, 0⟩, ())
  start := ()

theorem call_returns_sample : (sample.inner true).retry.DeclinesAt 2 ∧ sample.SettlesFor true ∧
    ∃ r, ∀ later, let w := sample.run ([true, false, true, true] ++ later)
      ((sample.call true).shown (w.state true)).phase = .returned r ∧
        (w.log.filter (·.1 = true)).length ≤ 3 := by
  have hserve : sample.SettlesFor true := by
    intro s
    refine ⟨by rintro ⟨⟩, ?_⟩
    rintro resp ⟨⟩
    decide
  exact ⟨TransientRetry.declinesAt 2, hserve,
    call_returns (TransientRetry.declinesAt 2) hserve (by decide)⟩

/-- A client that is built without an HTTP client and a policy of the caller's never hangs on a
call other than a subscription: six rounds and six attempts are enough, whatever the server and the
other calls do. -/
theorem default_client_returns {lib : HttpLibrary H} {settings : List (Setting H)}
    (hbuild : (ClientBuilder.configure settings).build lib = .ok (sys.inner i))
    (hown : lastOf Setting.asHttpClient settings = none)
    (hretry : lastOf Setting.asRetry settings = none)
    (hcall : ∀ req, sys.call i ≠ .subscribe req) (hkeeps : sys.KeepsTimeouts)
    {schedule : List ι} (h : 5 < schedule.count i) :
    ∃ r, ∀ later, let w := sys.run (schedule ++ later)
      ((sys.call i).shown (w.state i)).phase = .returned r ∧
        (w.log.filter (·.1 = i)).length ≤ 6 := by
  obtain ⟨key, -, hconfigured⟩ := build_eq_ok_iff.1 hbuild
  have hpolicy : (sys.inner i).retry.DeclinesAt 5 := by
    rw [hconfigured.retry, hretry]
    exact TransientRetry.declinesAt 5
  have hserve := SettlesFor.of_keepsTimeouts hconfigured hown hcall hkeeps
  exact exists_final (nearing_run hpolicy hserve schedule) h

def timed : System Bool Unit Unit where
  inner _ := ⟨(), defaultBaseUrl, ⟨bearer "a", true⟩, (TransientRetry.new 5).shouldRetry,
    some defaultReadTimeout⟩
  call first := if first then .publish .sample else .subscribe ⟨"q", "n", "m", 3⟩
  platform := samplePlatform
  deps := .sample
  serve _ _ req :=
    (if req.timeout.isSome then received 503 (fun _ => none) [] 0 else ⟨none, 0⟩, ())
  start := ()

theorem default_client_returns_timed :
    (ClientBuilder.configure [.apiKey "a"]).build sampleLibrary = .ok (timed.inner true) ∧
      timed.KeepsTimeouts ∧
      ∃ r, ∀ later, let w := timed.run ([false, true, true, true, true, true, true] ++ later)
        ((timed.call true).shown (w.state true)).phase = .returned r ∧
          (w.log.filter (·.1 = true)).length ≤ 6 := by
  have hbuild : (ClientBuilder.configure [.apiKey "a"]).build sampleLibrary =
      .ok (timed.inner true) := by rfl
  have hkeeps : timed.KeepsTimeouts := by
    intro s http req htimeout
    have hserve : (timed.serve s http req).1 = received 503 (fun _ => none) [] 0 :=
      if_pos (Option.isSome_iff_ne_none.2 htimeout)
    rw [hserve]
    refine ⟨by rintro ⟨⟩, ?_⟩
    rintro resp ⟨⟩
    decide
  have hcall : ∀ req, timed.call true ≠ .subscribe req := by
    rintro req ⟨⟩
  exact ⟨hbuild, hkeeps, default_client_returns hbuild rfl rfl hcall hkeeps (by decide)⟩

end System

end Semantik
