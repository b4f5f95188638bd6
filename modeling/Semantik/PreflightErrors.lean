import Semantik.Lib.OrderedRules
import Semantik.PublishPreflight

/-!
# Which error a preflight check reports

Every request has a list of rules, and its check reports the first that is broken. The metadata of a
publish request are checked in the order in which the map is iterated, which is not the caller's: of
the entries that break a rule any one may be reported, but nothing else.
-/

namespace Semantik

open OrderedRules

def targetRules (nameSpace model : String) (dimensions : UInt16) : List (Rule String) :=
  [rule (nameSpace = "") "namespace must not be empty",
    rule (model = "") "model must not be empty",
    rule (dimensions = 0) "dimensions must be greater than 0",
    rule (maxVectorDim < dimensions.toNat)
      s!"dimensions {dimensions} exceeds maximum {maxVectorDim}"]

def finiteRules (i : ℕ) (vector : List F32) : List (Rule String) :=
  (vector.zipIdx i).map fun fi => rule (¬ fi.1.isFinite) s!"publish vector index {fi.2} is NaN or Inf"

def itemRules (text : String) (vector : List F32) : List (Rule String) :=
  [rule (text = "" ∧ vector = []) "publish item must have at least one of text or vector",
    rule (text ≠ "" ∧ maxTextBytes < (asBytes text).length)
      s!"publish text exceeds {maxTextBytes} bytes",
    rule (maxVectorDim < vector.length)
      s!"publish vector dim {vector.length} exceeds maximum {maxVectorDim}"] ++
  finiteRules 0 vector

def dimensionRules (vector : List F32) (dimensions : UInt16) : List (Rule String) :=
  [rule (vector ≠ [] ∧ vector.length ≠ dimensions.toNat)
    s!"publish vector dim {vector.length} does not match request dimensions {dimensions}"]

def entryRules (printable : Char → Bool) (kv : String × String) : List (Rule String) :=
  [rule (kv.1 = "") "metadata key must not be empty",
    rule (maxMetadataKeyLen < (asBytes kv.1).length)
      s!"metadata key {debugStr printable kv.1} exceeds {maxMetadataKeyLen} bytes",
    rule (maxMetadataValueLen < (asBytes kv.2).length)
      s!"metadata value for key {debugStr printable kv.1} exceeds {maxMetadataValueLen} bytes",
    rule (hasControlChar kv.1)
      s!"metadata key {debugStr printable kv.1} contains control characters",
    rule (hasControlChar kv.2)
      s!"metadata value for key {debugStr printable kv.1} contains control characters"]

def countRules (n : ℕ) : List (Rule String) :=
  [rule (maxMetadataKeys < n) s!"metadata has {n} keys, maximum {maxMetadataKeys}"]

def totalRules (total : ℕ) : List (Rule String) :=
  [rule (maxMetadataTotalBytes < total)
    s!"metadata total size {total} exceeds {maxMetadataTotalBytes} bytes"]

def idempotencyRules (key : Option String) : List (Rule String) :=
  key.toList.map fun k =>
    rule (maxIdempotencyKeyLen < (asBytes k).length)
      s!"idempotency_key exceeds {maxIdempotencyKeyLen} bytes"

theorem reject_eq (condition : Prop) [Decidable condition] (message : String) :
    reject condition message = check .preflight [rule condition message] := by
  unfold reject check rule
  by_cases h : condition <;> simp [h, firstBroken]

theorem check_nil : check Error.preflight [] = .ok () := rfl

theorem validateTarget_eq (nameSpace model : String) (dimensions : UInt16) :
    validateTarget nameSpace model dimensions =
      check .preflight (targetRules nameSpace model dimensions) := by
  simp only [validateTarget, validateDimensions, reject_eq, ← check_append]
  rfl

theorem validateFinite_eq (i : ℕ) (vector : List F32) : validateFinite i vector =
    check .preflight (finiteRules i vector) := by
  induction vector generalizing i with
  | nil => rfl
  | cons f vector ih =>
      rw [validateFinite, reject_eq, ih, ← check_append]
      rfl

theorem validatePublishItem_eq (text : String) (vector : List F32) :
    validatePublishItem text vector = check .preflight (itemRules text vector) := by
  unfold validatePublishItem
  by_cases hvector : vector = []
  · rw [if_neg (not_not.2 hvector), ← check_nil]
    simp only [reject_eq, ← check_append]
    have hkept : ∀ r ∈ [rule (maxVectorDim < vector.length)
        s!"publish vector dim {vector.length} exceeds maximum {maxVectorDim}"], r.1 = false := by
      simp [rule, hvector]
    rw [← check_append_of_kept _ _ hkept, hvector]
    rfl
  · rw [if_pos hvector, validateFinite_eq]
    simp only [reject_eq, ← check_append]
    rfl

theorem validateVectorMatchesDimensions_eq (vector : List F32) (dimensions : UInt16) :
    validateVectorMatchesDimensions vector dimensions =
      check .preflight (dimensionRules vector dimensions) := by
  unfold validateVectorMatchesDimensions dimensionRules
  by_cases hvector : vector = []
  · rw [if_pos hvector, ← check_nil]
    exact (check_append_of_kept _ [] (by simp [rule, hvector])).symm
  · rw [if_neg hvector, reject_eq]
    simp only [rule, hvector, ne_eq, not_false_iff, true_and]

theorem check_entryRules (printable : Char → Bool) (k v : String) :
    check .preflight (entryRules printable (k, v)) = (do
      reject (k = "") "metadata key must not be empty"
      reject (maxMetadataKeyLen < (asBytes k).length)
        s!"metadata key {debugStr printable k} exceeds {maxMetadataKeyLen} bytes"
      reject (maxMetadataValueLen < (asBytes v).length)
        s!"metadata value for key {debugStr printable k} exceeds {maxMetadataValueLen} bytes"
      reject (hasControlChar k)
        s!"metadata key {debugStr printable k} contains control characters"
      reject (hasControlChar v)
        s!"metadata value for key {debugStr printable k} contains control characters") := by
  simp only [reject_eq, ← check_append]
  rfl

theorem validateMetadataFrom_eq (printable : Char → Bool) (total : ℕ)
    (md : List (String × String)) : validateMetadataFrom printable total md =
      check .preflight (md.flatMap (entryRules printable)) >>= fun _ =>
        .ok (total + metadataSize md) := by
  induction md generalizing total with
  | nil => rfl
  | cons kv md ih =>
      obtain ⟨k, v⟩ := kv
      have hsize : total + ((asBytes k).length + (asBytes v).length) + metadataSize md =
          total + metadataSize ((k, v) :: md) := by
        rw [metadataSize, metadataSize, List.map_cons, List.sum_cons, Nat.add_assoc]
      rw [validateMetadataFrom, ih, List.flatMap_cons, check_append, check_entryRules, hsize]
      simp only [bind_assoc]

theorem validateMetadata_eq (printable : Char → Bool) (md : HashMap) :
    validateMetadata printable md = check .preflight (countRules md.entries.length ++
      (md.entries.flatMap (entryRules printable) ++ totalRules (metadataSize md.entries))) := by
  unfold validateMetadata
  by_cases hempty : md.entries = []
  · rw [if_pos hempty, hempty]
    rfl
  · rw [if_neg hempty, validateMetadataFrom_eq, Nat.zero_add]
    simp only [reject_eq, bind_assoc, check_append]
    rfl

def PublishRequest.rulesBefore (req : PublishRequest) : List (Rule String) :=
  targetRules req.nameSpace req.model req.dimensions ++
    match req.items with
    | [item] =>
      itemRules item.text item.vector ++ dimensionRules item.vector req.dimensions ++
        countRules req.metadata.entries.length
    | items => [rule True s!"publish requires exactly 1 item, got {items.length}"]

def PublishRequest.rulesAfter (req : PublishRequest) : List (Rule String) :=
  totalRules (metadataSize req.metadata.entries) ++ idempotencyRules req.idempotencyKey

def SearchRequest.rules (req : SearchRequest) : List (Rule String) :=
  rule (req.query = "") "search query must not be empty" ::
    targetRules req.nameSpace req.model req.dimensions

def SubscribeRequest.rules (req : SubscribeRequest) : List (Rule String) :=
  rule (req.query = "") "subscribe query must not be empty" ::
    targetRules req.nameSpace req.model req.dimensions

def LintRequest.rules (req : LintRequest) : List (Rule String) :=
  [rule (req.query = "") "lint query must not be empty",
    rule ((asBytes req.query).length < req.cursor.toNat)
      s!"lint cursor {req.cursor} exceeds query length {(asBytes req.query).length}"]

theorem SearchRequest.validate_eq (req : SearchRequest) :
    req.validate = check .preflight req.rules := by
  simp only [SearchRequest.validate, validateTarget_eq, reject_eq, ← check_append]
  rfl

theorem SubscribeRequest.validate_eq (req : SubscribeRequest) :
    req.validate = check .preflight req.rules := by
  simp only [SubscribeRequest.validate, validateTarget_eq, reject_eq, ← check_append]
  rfl

theorem LintRequest.validate_eq (req : LintRequest) :
    req.validate = check .preflight req.rules := by
  simp only [LintRequest.validate, reject_eq, ← check_append]
  rfl

theorem PublishRequest.validate_eq (printable : Char → Bool) (req : PublishRequest) :
    req.validate printable = check .preflight (req.rulesBefore ++
      (req.metadata.entries.flatMap (entryRules printable) ++ req.rulesAfter)) := by
  obtain ⟨items, nameSpace, model, dimensions, metadata, key, ack⟩ := req
  unfold PublishRequest.validate PublishRequest.rulesBefore PublishRequest.rulesAfter
  dsimp only
  rw [validateTarget_eq]
  rcases items with _ | ⟨item, _ | ⟨item', items⟩⟩
  · rw [List.append_assoc, check_append]
    rfl
  · dsimp only
    rw [validatePublishItem_eq, validateVectorMatchesDimensions_eq, validateMetadata_eq]
    cases key with
    | none =>
        simp only [← check_nil, ← check_append, List.append_assoc, idempotencyRules,
          Option.toList_none, List.map_nil]
    | some k =>
        simp only [reject_eq, ← check_append, List.append_assoc, idempotencyRules,
          Option.toList_some, List.map_cons, List.map_nil]
  · rw [List.append_assoc, check_append]
    rfl

/-- What the check of a publish request may report: the first broken rule before those of the
metadata entries, or that of any entry that breaks one, or else the first after them. -/
def PublishRequest.Reports (printable : Char → Bool) (req : PublishRequest) (message : String) :
    Prop :=
  firstBroken req.rulesBefore = some message ∨ firstBroken req.rulesBefore = none ∧
    ((∃ kv ∈ req.metadata.entries, firstBroken (entryRules printable kv) = some message) ∨
      (∀ kv ∈ req.metadata.entries, firstBroken (entryRules printable kv) = none) ∧
        firstBroken req.rulesAfter = some message)

/-- Over all orders in which the metadata of a publish request may be iterated, its check reports
these errors and no others. The other checks report their first broken rule. -/
theorem preflight_reports (printable : Char → Bool) :
    (∀ (req : PublishRequest) (err : Error),
      (∃ md : HashMap, md.entries.Perm req.metadata.entries ∧
        ({ req with metadata := md } : PublishRequest).validate printable = .error err) ↔
      ∃ message, req.Reports printable message ∧ err = .preflight message) ∧
    (∀ (req : SearchRequest) (err : Error), req.validate = .error err ↔
      ∃ message, firstBroken req.rules = some message ∧ err = .preflight message) ∧
    (∀ (req : SubscribeRequest) (err : Error), req.validate = .error err ↔
      ∃ message, firstBroken req.rules = some message ∧ err = .preflight message) ∧
    ∀ (req : LintRequest) (err : Error), req.validate = .error err ↔
      ∃ message, firstBroken req.rules = some message ∧ err = .preflight message := by
  refine ⟨?_, ?_, ?_, ?_⟩
  · intro req err
    -- another order of the metadata changes nothing before and after them
    have hsame : ∀ md : HashMap, md.entries.Perm req.metadata.entries →
        ({ req with metadata := md } : PublishRequest).rulesBefore = req.rulesBefore ∧
          ({ req with metadata := md } : PublishRequest).rulesAfter = req.rulesAfter := by
      intro md hperm
      have hsize : metadataSize md.entries = metadataSize req.metadata.entries :=
        (hperm.map _).sum_eq
      rw [PublishRequest.rulesBefore, PublishRequest.rulesAfter, hperm.length_eq, hsize]
      exact ⟨rfl, rfl⟩
    unfold PublishRequest.Reports
    simp only [← exists_perm_firstBroken_append_iff]
    constructor
    · rintro ⟨md, hperm, herr⟩
      rw [PublishRequest.validate_eq, (hsame md hperm).1, (hsame md hperm).2,
        check_eq_error_iff] at herr
      obtain ⟨message, hmessage, rfl⟩ := herr
      exact ⟨message, ⟨md.entries, hperm, hmessage⟩, rfl⟩
    · rintro ⟨message, ⟨entries, hperm, hmessage⟩, rfl⟩
      have hnodup := (hperm.map Prod.fst).nodup_iff.2 req.metadata.nodup
      refine ⟨⟨entries, hnodup⟩, hperm, ?_⟩
      rw [PublishRequest.validate_eq, (hsame ⟨entries, hnodup⟩ hperm).1,
        (hsame ⟨entries, hnodup⟩ hperm).2, check_eq_error_iff]
      exact ⟨message, hmessage, rfl⟩
  · intro req err
    rw [req.validate_eq, check_eq_error_iff]
  · intro req err
    rw [req.validate_eq, check_eq_error_iff]
  · intro req err
    rw [req.validate_eq, check_eq_error_iff]

end Semantik
