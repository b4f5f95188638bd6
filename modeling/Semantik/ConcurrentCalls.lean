import Semantik.Lib.RetryAnswers
import Semantik.NoRepeat
import Semantik.RequestWire

/-!
# Concurrent calls

Any number of calls are under way, on one client or on several, and take their rounds in any order.
The server has a state of its own, so what it answers to an attempt may depend on everything that
went before. The policies have none: they decide by the attempt and its error. Each call is still
where it would be alone against the answers that it got, and the HTTP client has got of it nothing
but its own request, once for each attempt.
-/

namespace Semantik

namespace ApiCall

def Result : ApiCall → Type
  | publish _ => PublishResponse
  | search _ => SearchResponse
  | lint _ => LintResponse
  | subscribe _ => Subscription
  | health => Unit

variable (deps : Dependencies)

def once : (call : ApiCall) → Exchange → Future (Except Error call.Result)
  | publish _ => sendOnceJson deps (Client.publishResponses deps)
  | search _ => sendOnceJson deps (Client.searchResponses deps)
  | lint _ => sendOnceJson deps (Client.lintResponses deps)
  | subscribe _ => subscribeOnce deps
  | health => Client.health deps

def policy (retry : RetryPolicy) : ApiCall → RetryPolicy
  | health => noRetry
  | _ => retry

def loop (client : Client) (call : ApiCall) (answers : UInt32 → Exchange) :
    RetryLoop UInt32 Error call.Result Duration :=
  (retryLoop (call.policy client.retry) fun _ => none).answered (call.once deps) answers

/-- How the call looks from outside: a failed handshake is wrapped. -/
def shown : (call : ApiCall) → Call call.Result → Call call.Result
  | subscribe req, state => preflighted req.validate (mapErr .subscribeSetup state)
  | publish _, state => state
  | search _, state => state
  | lint _, state => state
  | health, state => state

end ApiCall

theorem toNat_of_next {α : Type} {policy : RetryPolicy} {f : UInt32 → Future (Except Error α)}
    {k k' : UInt32} (h : (retryLoop policy f).next k = some k') : k'.toNat = k.toNat + 1 := by
  change (if k.toNat + 1 < 2 ^ 32 then some (k + 1) else none) = some k' at h
  split_ifs at h with hlt
  cases h
  have hadd : (k + 1).toNat = (k.toNat + 1) % 2 ^ 32 := rfl
  omega

theorem grows_retryLoop {α : Type} (policy : RetryPolicy) (f : UInt32 → Future (Except Error α)) :
    (retryLoop policy f).Grows UInt32.toNat := fun _ _ hnext => by
  rw [toNat_of_next hnext]
  exact Nat.lt_succ_self _

/-- Clients and their calls, and a server with a state. -/
structure System (ι σ H : Type) where
  inner : ι → Inner H
  call : ι → ApiCall
  platform : Platform
  deps : Dependencies
  serve : σ → H → HttpRequest → Exchange × σ
  start : σ

/-- The server, what it was sent and has answered, and where the calls stand. -/
structure World (ι σ : Type) (call : ι → ApiCall) where
  server : σ
  log : List (ι × HttpRequest × Exchange)
  state : ∀ i, Call (call i).Result

namespace System

variable {ι σ H : Type} [DecidableEq ι] (sys : System ι σ H)

def request (i : ι) : HttpRequest := (sys.inner i).sends sys.platform sys.deps (sys.call i)

def loop (i : ι) (answers : UInt32 → Exchange) :
    RetryLoop UInt32 Error (sys.call i).Result Duration :=
  (sys.call i).loop sys.deps ⟨(sys.inner i).retry⟩ answers

/-- No call has begun its first round. Those whose checks fail have returned. -/
def init : World ι σ sys.call where
  server := sys.start
  log := []
  state i := preflighted ((sys.call i).validate sys.deps.printable) ⟨[], [], .ready 0⟩

def step (w : World ι σ sys.call) (i : ι) : World ι σ sys.call :=
  match (w.state i).phase with
  | .ready _ =>
    let (x, server) := sys.serve w.server (sys.inner i).http (sys.request i)
    { server
      log := w.log ++ [(i, sys.request i, x)]
      state := Function.update w.state i ((sys.loop i fun _ => x).step (w.state i)) }
  | _ => w

def run (schedule : List ι) : World ι σ sys.call := schedule.foldl sys.step sys.init

theorem run_append (schedule later : List ι) :
    sys.run (schedule ++ later) = later.foldl sys.step (sys.run schedule) := List.foldl_append

theorem run_concat (schedule : List ι) (j : ι) :
    sys.run (schedule ++ [j]) = sys.step (sys.run schedule) j := sys.run_append schedule [j]

def answer (s : σ) (i : ι) : Exchange := (sys.serve s (sys.inner i).http (sys.request i)).1

def after (s : σ) (i : ι) : σ := (sys.serve s (sys.inner i).http (sys.request i)).2

theorem step_of_ready {w : World ι σ sys.call} {i : ι} {k : UInt32}
    (hk : (w.state i).phase = .ready k) : sys.step w i =
      ⟨sys.after w.server i, w.log ++ [(i, sys.request i, sys.answer w.server i)],
        Function.update w.state i ((sys.loop i fun _ => sys.answer w.server i).step (w.state i))⟩ := by
  simp only [step, hk]
  rfl

theorem step_of_halted {w : World ι σ sys.call} {i : ι} (h : ∀ k, (w.state i).phase ≠ .ready k) :
    sys.step w i = w := by
  unfold step
  split
  · next k hk => exact absurd hk (h k)
  · rfl

/-- A round of another call changes nothing for this one. -/
theorem state_step_of_ne (w : World ι σ sys.call) {i j : ι} (h : j ≠ i) :
    (sys.step w j).state i = w.state i := by
  unfold step
  split
  · exact Function.update_of_ne h.symm _ _
  · rfl

theorem state_step_self (w : World ι σ sys.call) (i : ι) : (sys.step w i).state i =
    (sys.loop i fun _ => sys.answer w.server i).step (w.state i) := by
  by_cases hready : ∃ k, (w.state i).phase = .ready k
  · obtain ⟨k, hk⟩ := hready
    rw [sys.step_of_ready hk]
    exact Function.update_self _ _ _
  · rw [sys.step_of_halted (not_exists.1 hready), RetryLoop.step_halted _ (not_exists.1 hready)]

/-- The call stands where it stands alone after so many rounds with these answers, and the server
has got its request and given these answers, once for each of its attempts. -/
structure Alone (w : World ι σ sys.call) (i : ι) (rounds : ℕ) (answers : UInt32 → Exchange) :
    Prop where
  state : w.state i = preflighted ((sys.call i).validate sys.deps.printable)
    ((sys.loop i answers).run rounds)
  log : (w.log.filter (·.1 = i)).map Prod.snd =
    (w.state i).calls.map fun k => (sys.request i, answers k)

theorem alone_init (i : ι) (answers : UInt32 → Exchange) : sys.Alone sys.init i 0 answers where
  state := rfl
  log := by
    have hcalls : (sys.init.state i).calls = [] := by
      unfold init
      dsimp only
      cases (sys.call i).validate sys.deps.printable with
      | error err => rfl
      | ok u => rfl
    rw [hcalls]
    rfl

/-- The rounds of the other calls leave a call alone. -/
theorem alone_step_of_ne {w : World ι σ sys.call} {i j : ι} (hne : j ≠ i) {rounds : ℕ}
    {answers : UInt32 → Exchange} (h : sys.Alone w i rounds answers) :
    sys.Alone (sys.step w j) i rounds answers := by
  have hstate := sys.state_step_of_ne w hne
  refine ⟨hstate.trans h.state, ?_⟩
  rw [hstate, ← h.log]
  by_cases hready : ∃ k, (w.state j).phase = .ready k
  · obtain ⟨k, hk⟩ := hready
    rw [sys.step_of_ready hk]
    dsimp only
    rw [List.filter_append]
    simp [hne]
  · rw [sys.step_of_halted (not_exists.1 hready)]

/-- A call under way has passed its checks. -/
theorem Alone.of_ready {w : World ι σ sys.call} {i : ι} {rounds : ℕ} {answers : UInt32 → Exchange}
    (h : sys.Alone w i rounds answers) {k : UInt32} (hk : (w.state i).phase = .ready k) :
    (sys.call i).validate sys.deps.printable = .ok () ∧
      w.state i = (sys.loop i answers).run rounds := by
  rw [h.state] at hk ⊢
  cases hcheck : (sys.call i).validate sys.deps.printable with
  | error err =>
      rw [hcheck] at hk
      cases hk
  | ok u => exact ⟨rfl, rfl⟩

/-- A call that is done makes its rounds without a change. -/
theorem Alone.of_halted {w : World ι σ sys.call} {i : ι} {rounds : ℕ} {answers : UInt32 → Exchange}
    (h : sys.Alone w i rounds answers) (hdone : ∀ k, (w.state i).phase ≠ .ready k) :
    sys.Alone w i (rounds + 1) answers := by
  refine ⟨?_, h.log⟩
  have hstate := h.state
  cases hcheck : (sys.call i).validate sys.deps.printable with
  | error err => rwa [hcheck] at hstate
  | ok u =>
      rw [hcheck] at hstate
      change w.state i = (sys.loop i answers).run rounds at hstate
      rw [hstate] at hdone ⊢
      change _ = (sys.loop i answers).run (rounds + 1)
      rw [RetryLoop.run_succ, (sys.loop i answers).step_halted hdone]

/-- A round of the call is its next one. -/
theorem exists_alone_step {w : World ι σ sys.call} {i : ι} {rounds : ℕ}
    {answers : UInt32 → Exchange} (h : sys.Alone w i rounds answers) :
    ∃ answers', sys.Alone (sys.step w i) i (rounds + 1) answers' := by
  by_cases hready : ∃ k, (w.state i).phase = .ready k
  swap
  · rw [sys.step_of_halted (not_exists.1 hready)]
    exact ⟨answers, h.of_halted sys (not_exists.1 hready)⟩
  obtain ⟨k, hk⟩ := hready
  obtain ⟨hcheck, hstate⟩ := h.of_ready sys hk
  have hself := sys.state_step_self w i
  have hlogged : (sys.step w i).log = w.log ++ [(i, sys.request i, sys.answer w.server i)] := by
    rw [sys.step_of_ready hk]
  have hlog := h.log
  generalize sys.answer w.server i = x at hself hlogged
  rw [hstate] at hk hlog hself
  have hnext := RetryLoop.step_answered _ ((sys.call i).once sys.deps)
    (grows_retryLoop _ fun _ => none) answers hk x
  have hsame := (sys.loop i answers).update_of_mem_calls (grows_retryLoop _ _) answers hk x
  have hcalls := (sys.loop i fun _ => x).calls_step hk
  refine ⟨Function.update answers k x, ?_, ?_⟩
  · rw [hself, hcheck]
    exact hnext
  · rw [hself, hcalls, hlogged, List.filter_append, List.map_append, hlog, List.map_append]
    congr 1
    · exact List.map_congr_left fun k' hk' => by rw [hsame k' hk']
    · simp

/-- In every run a call is where it is alone, after its own rounds. -/
theorem exists_alone_run (schedule : List ι) (i : ι) :
    ∃ answers, sys.Alone (sys.run schedule) i (schedule.count i) answers := by
  induction schedule using List.reverseRecOn with
  | nil => exact ⟨fun _ => ⟨none, 0⟩, sys.alone_init i _⟩
  | append_singleton schedule j ih =>
      obtain ⟨answers, h⟩ := ih
      rw [run_concat, List.count_append]
      by_cases hij : j = i
      · subst hij
        rw [List.count_singleton_self]
        exact sys.exists_alone_step h
      · rw [List.count_singleton, if_neg (by simpa using hij), Nat.add_zero]
        exact ⟨answers, sys.alone_step_of_ne hij h⟩

end System

end Semantik
