import Semantik.Lib.JsonText
import Semantik.Validate
import Semantik.Wire

/-!
# Requests

The requests of the client, the checks each must pass, and the JSON text that is sent. Fields that
are marked so are left out of the text at their default.
-/

namespace Semantik

inductive AckMode where
  | stored
  | durable
deriving DecidableEq, Repr

structure PublishItem where
  vector : List F32 := []
  text : String := ""
deriving DecidableEq, Repr

structure PublishRequest where
  items : List PublishItem := []
  nameSpace : String := ""
  model : String := ""
  dimensions : UInt16 := 0
  metadata : HashMap := ⟨[], List.nodup_nil⟩
  idempotencyKey : Option String := none
  ack : AckMode := .stored
deriving DecidableEq, Repr

structure SearchRequest where
  query : String := ""
  nameSpace : String := ""
  model : String := ""
  limit : UInt32 := 0
  dimensions : UInt16 := 0
deriving DecidableEq, Repr

structure SubscribeRequest where
  query : String := ""
  nameSpace : String := ""
  model : String := ""
  dimensions : UInt16 := 0
deriving DecidableEq, Repr

structure LintRequest where
  query : String := ""
  cursor : UInt32 := 0
deriving DecidableEq, Repr

def PublishRequest.validate (printable : Char → Bool) (req : PublishRequest) :
    Except Error Unit := do
  validateTarget req.nameSpace req.model req.dimensions
  match req.items with
  | [item] =>
    validatePublishItem item.text item.vector
    validateVectorMatchesDimensions item.vector req.dimensions
    validateMetadata printable req.metadata
    match req.idempotencyKey with
    | some k =>
      reject (maxIdempotencyKeyLen < (asBytes k).length)
        s!"idempotency_key exceeds {maxIdempotencyKeyLen} bytes"
    | none => .ok ()
  | items => .error (.preflight s!"publish requires exactly 1 item, got {items.length}")

def SearchRequest.validate (req : SearchRequest) : Except Error Unit := do
  reject (req.query = "") "search query must not be empty"
  validateTarget req.nameSpace req.model req.dimensions

def SubscribeRequest.validate (req : SubscribeRequest) : Except Error Unit := do
  reject (req.query = "") "subscribe query must not be empty"
  validateTarget req.nameSpace req.model req.dimensions

def LintRequest.validate (req : LintRequest) : Except Error Unit := do
  reject (req.query = "") "lint query must not be empty"
  reject ((asBytes req.query).length < req.cursor.toNat)
    s!"lint cursor {req.cursor} exceeds query length {(asBytes req.query).length}"

/-- The requests that `PublishRequest.validate` accepts. -/
theorem PublishRequest.validate_eq_ok_iff {printable : Char → Bool} {req : PublishRequest}
    {u : Unit} : req.validate printable = .ok u ↔ ∃ item, req.items = [item] ∧
      validateTarget req.nameSpace req.model req.dimensions = .ok () ∧
      validatePublishItem item.text item.vector = .ok () ∧
      validateVectorMatchesDimensions item.vector req.dimensions = .ok () ∧
      validateMetadata printable req.metadata = .ok () ∧
      ∀ k, req.idempotencyKey = some k → (asBytes k).length ≤ maxIdempotencyKeyLen := by
  unfold PublishRequest.validate
  rw [check_bind_eq_ok_iff]
  split
  · next item hitems =>
    cases hkey : req.idempotencyKey with
    | none => simp [hitems, check_bind_eq_ok_iff]
    | some k => simp [hitems, check_bind_eq_ok_iff, reject_eq_ok_iff]
  · next hitems =>
    simp only [reduceCtorEq, and_false, false_iff, not_exists, not_and]
    exact fun item h => absurd h (hitems item)

theorem PublishRequest.rejectsOnly_validate (printable : Char → Bool) (req : PublishRequest) :
    RejectsOnly (req.validate printable) := by
  apply (rejectsOnly_validateTarget _ _ _).bind
  intro _
  split
  · apply (rejectsOnly_validatePublishItem _ _).bind
    intro _
    apply (rejectsOnly_validateVectorMatchesDimensions _ _).bind
    intro _
    apply (rejectsOnly_validateMetadata _ _).bind
    intro _
    split
    · exact rejectsOnly_reject _ _
    · exact .ok ()
  · exact .preflight _

theorem SearchRequest.rejectsOnly_validate (req : SearchRequest) : RejectsOnly req.validate := by
  apply (rejectsOnly_reject _ _).bind
  intro _
  exact rejectsOnly_validateTarget _ _ _

theorem SubscribeRequest.rejectsOnly_validate (req : SubscribeRequest) :
    RejectsOnly req.validate := by
  apply (rejectsOnly_reject _ _).bind
  intro _
  exact rejectsOnly_validateTarget _ _ _

theorem LintRequest.rejectsOnly_validate (req : LintRequest) : RejectsOnly req.validate := by
  apply (rejectsOnly_reject _ _).bind
  intro _
  exact rejectsOnly_reject _ _

variable (deps : Dependencies)

open JsonText

def encodeNat (n : ℕ) : List UInt8 := asBytes (toString n)

/-- A name of the protocol as a JSON string. None of them needs escapes. -/
def quoted (name : String) : List UInt8 := asBytes ("\"" ++ name ++ "\"")

def PublishItem.toVec (item : PublishItem) : List UInt8 :=
  object
    ((if item.vector = [] then []
      else [(quoted "vector", array (item.vector.map deps.encodeF32))]) ++
    if item.text = "" then [] else [(quoted "text", deps.encodeStr item.text)])

def encodeMap (md : HashMap) : List UInt8 :=
  object (md.entries.map (fun kv => (deps.encodeStr kv.1, deps.encodeStr kv.2)))

def PublishRequest.toVec (req : PublishRequest) : List UInt8 :=
  object
    ([(quoted "items", array (req.items.map (PublishItem.toVec deps))),
      (quoted "namespace", deps.encodeStr req.nameSpace),
      (quoted "model", deps.encodeStr req.model),
      (quoted "dimensions", encodeNat req.dimensions.toNat)] ++
    (if req.metadata.entries = [] then []
      else [(quoted "metadata", encodeMap deps req.metadata)]) ++
    (req.idempotencyKey.toList.map (fun k => (quoted "idempotency_key", deps.encodeStr k))) ++
    (match req.ack with
      | .stored => []
      | .durable => [(quoted "ack", quoted "durable")]))

def SearchRequest.toVec (req : SearchRequest) : List UInt8 :=
  object
    ([(quoted "query", deps.encodeStr req.query),
      (quoted "namespace", deps.encodeStr req.nameSpace),
      (quoted "model", deps.encodeStr req.model)] ++
    (if req.limit = 0 then [] else [(quoted "limit", encodeNat req.limit.toNat)]) ++
    [(quoted "dimensions", encodeNat req.dimensions.toNat)])

def SubscribeRequest.toVec (req : SubscribeRequest) : List UInt8 :=
  object
    [(quoted "query", deps.encodeStr req.query),
      (quoted "namespace", deps.encodeStr req.nameSpace),
      (quoted "model", deps.encodeStr req.model),
      (quoted "dimensions", encodeNat req.dimensions.toNat)]

def LintRequest.toVec (req : LintRequest) : List UInt8 :=
  object
    [(quoted "query", deps.encodeStr req.query),
      (quoted "cursor", encodeNat req.cursor.toNat)]

end Semantik
