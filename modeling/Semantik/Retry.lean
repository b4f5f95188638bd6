import Semantik.ErrorResponse

/-!
# Retry policies

A policy looks at the number of the failed attempt and at its error, and declines or says how long
to wait. `TransientRetry` retries four transient codes up to its budget.
-/

namespace Semantik

/-- The decisions of a policy. The loop asks once for each attempt, so a policy with a state of its
own, or a clock, is a function too as far as one call of the client can tell. -/
abbrev RetryPolicy := UInt32 → Error → Option Duration

def noRetry : RetryPolicy := fun _ _ => none

/-- Waits for attempts without a hint; the last one serves all later attempts. -/
def backoffSchedule : List Duration :=
  [.fromMillis 100, .fromSecs 2, .fromSecs 5, .fromSecs 10]

def fallbackBackoff (attempt : UInt32) : Duration :=
  backoffSchedule.get ⟨min attempt.toNat (backoffSchedule.length - 1),
    Nat.lt_of_le_of_lt (Nat.min_le_right _ _) (by decide)⟩

structure TransientRetry where
  maxAttempts : UInt32

namespace TransientRetry

def new (maxAttempts : UInt32) : TransientRetry := ⟨maxAttempts⟩

def shouldRetry (policy : TransientRetry) : RetryPolicy := fun attempt err =>
  if policy.maxAttempts ≤ attempt then none
  else
    match err with
    | .api code _ _ retryAfter _ =>
      match code with
      | .backpressure | .unavailable | .namespaceUnavailable | .meteringUnavailable =>
        some (retryAfter.getD (fallbackBackoff attempt))
      | _ => none
    | _ => none

end TransientRetry

namespace ErrorCode

def IsTransient (code : ErrorCode) : Prop :=
  code = backpressure ∨ code = unavailable ∨ code = namespaceUnavailable ∨
    code = meteringUnavailable

instance (code : ErrorCode) : Decidable code.IsTransient := by
  unfold IsTransient
  infer_instance

def transientNames : List String :=
  ["backpressure", "unavailable", "namespace_unavailable", "metering_unavailable"]

theorem isTransient_fromWire (s : String) : (fromWire s).IsTransient ↔ s ∈ transientNames := by
  unfold IsTransient
  rw [fromWire_eq_iff (by rintro _ ⟨⟩), fromWire_eq_iff (by rintro _ ⟨⟩),
    fromWire_eq_iff (by rintro _ ⟨⟩), fromWire_eq_iff (by rintro _ ⟨⟩)]
  simp [transientNames, asStr]

theorem isTransient_statusCodeFallback (status : ℕ) :
    (statusCodeFallback status).IsTransient ↔ status = 503 := by
  unfold statusCodeFallback
  split
  case h_8 => decide
  case h_9 h503 => exact iff_of_false (by decide) h503
  all_goals exact iff_of_false (by decide) (by decide)

end ErrorCode

namespace Error

def IsTransient (err : Error) : Prop := ∃ code message requestId retryAfter httpStatus,
  err = .api code message requestId retryAfter httpStatus ∧ code.IsTransient

@[simp] theorem isTransient_api (code : ErrorCode) (message : String) (requestId : Option String)
    (retryAfter : Option Duration) (httpStatus : ℕ) :
    (api code message requestId retryAfter httpStatus).IsTransient ↔ code.IsTransient := by
  constructor
  · rintro ⟨_, _, _, _, _, ⟨⟩, h⟩
    exact h
  · intro h
    exact ⟨_, _, _, _, _, rfl, h⟩

end Error

namespace TransientRetry

variable (policy : TransientRetry) (attempt : UInt32)

/-- What `shouldRetry` does on every error. -/
theorem shouldRetry_eq_some_iff (err : Error) (d : Duration) :
    policy.shouldRetry attempt err = some d ↔ attempt < policy.maxAttempts ∧ err.IsTransient ∧
      err.retryAfter.getD (fallbackBackoff attempt) = d := by
  unfold shouldRetry
  split_ifs with hmax
  · apply iff_of_false (by simp)
    intro h
    exact absurd h.1 (UInt32.not_lt.2 hmax)
  · rw [UInt32.not_le] at hmax
    cases err with
    | api code message requestId retryAfter httpStatus =>
        simp only [hmax, true_and, Error.isTransient_api, Error.retryAfter]
        cases code <;> simp [ErrorCode.IsTransient]
    | _ => simp [Error.IsTransient]

theorem isSome_shouldRetry (err : Error) :
    (policy.shouldRetry attempt err).isSome ↔ attempt < policy.maxAttempts ∧ err.IsTransient := by
  rw [Option.isSome_iff_exists]
  simp only [shouldRetry_eq_some_iff]
  constructor
  · intro h
    obtain ⟨_, hlt, ht, -⟩ := h
    exact ⟨hlt, ht⟩
  · intro h
    exact ⟨_, h.1, h.2, rfl⟩

end TransientRetry

theorem fallbackBackoff_mem (attempt : UInt32) : fallbackBackoff attempt ∈ backoffSchedule :=
  List.get_mem _ _

theorem inRange_fallbackBackoff (attempt : UInt32) : InRange (fallbackBackoff attempt) := by
  have hall : ∀ d ∈ backoffSchedule, InRange d := by
    simp only [backoffSchedule, List.forall_mem_cons, InRange]
    decide
  exact hall _ (fallbackBackoff_mem attempt)

variable (deps : Dependencies) (maxAttempts attempt : UInt32) (status : ℕ) (headers : HeaderMap)
  (body : List UInt8) (now : SystemTime)

/-- The statuses that speak of the request rather than of the server. -/
def terminalStatuses : List ℕ := [400, 401, 402, 405, 413, 415, 429]

theorem isTransient_decodeErrorResponse :
    (decodeErrorResponse deps status headers body now).IsTransient ↔
      (∃ s ∈ ErrorCode.transientNames, errorString deps body = some s) ∨
        errorString deps body = none ∧ status = 503 := by
  obtain ⟨message, requestId, retryAfter, heq, -⟩ :=
    exists_decodeErrorResponse deps status headers body now
  rw [heq, Error.isTransient_api, responseCode]
  cases hs : errorString deps body with
  | none => simp [ErrorCode.isTransient_statusCodeFallback]
  | some s => simp [ErrorCode.isTransient_fromWire]

/-- With budget left, a failed response is retried exactly if its body names a transient code, or
names no code and its status is 503. No terminal status is retried unless its body names a
transient code, and every wait is positive and at most one hour. -/
theorem shouldRetry_decodeErrorResponse :
    (((TransientRetry.new maxAttempts).shouldRetry attempt
        (decodeErrorResponse deps status headers body now)).isSome ↔
      attempt < maxAttempts ∧ ((∃ s ∈ ErrorCode.transientNames, errorString deps body = some s) ∨
        errorString deps body = none ∧ status = 503)) ∧
    (status ∈ terminalStatuses →
      ((TransientRetry.new maxAttempts).shouldRetry attempt
        (decodeErrorResponse deps status headers body now)).isSome →
      ∃ s ∈ ErrorCode.transientNames, errorString deps body = some s) ∧
    ∀ d, (TransientRetry.new maxAttempts).shouldRetry attempt
        (decodeErrorResponse deps status headers body now) = some d → 0 < d ∧ d ≤ .fromSecs 3600 := by
  refine ⟨?_, ?_, ?_⟩
  · rw [TransientRetry.isSome_shouldRetry, isTransient_decodeErrorResponse]
    rfl
  · intro hstatus hsome
    rw [TransientRetry.isSome_shouldRetry, isTransient_decodeErrorResponse] at hsome
    obtain ⟨-, hnamed | ⟨-, rfl⟩⟩ := hsome
    · exact hnamed
    · exact absurd hstatus (by decide)
  · intro d hd
    obtain ⟨-, -, rfl⟩ := (TransientRetry.shouldRetry_eq_some_iff _ _ _ _).1 hd
    obtain ⟨message, requestId, retryAfter, heq, hrange⟩ :=
      exists_decodeErrorResponse deps status headers body now
    rw [heq, Error.retryAfter]
    cases retryAfter with
    | none => exact inRange_fallbackBackoff attempt
    | some d => exact hrange d rfl

end Semantik
