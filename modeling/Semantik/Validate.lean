import Semantik.Error
import Semantik.Limits

/-!
# Preflight checks

What a request must satisfy before it is sent. A check that fails rejects the request with a
preflight error, and the checks after it do not run.
-/

namespace Semantik

def reject (condition : Prop) [Decidable condition] (message : String) : Except Error Unit :=
  if condition then .error (.preflight message) else .ok ()

def hasControlChar (s : String) : Bool := (asBytes s).any (fun b => b < 0x20 || b == 0x7F)

def validateDimensions (dim : UInt16) : Except Error Unit := do
  reject (dim = 0) "dimensions must be greater than 0"
  reject (maxVectorDim < dim.toNat) s!"dimensions {dim} exceeds maximum {maxVectorDim}"

def validateTarget (nameSpace model : String) (dimensions : UInt16) : Except Error Unit := do
  reject (nameSpace = "") "namespace must not be empty"
  reject (model = "") "model must not be empty"
  validateDimensions dimensions

/-- The loop of `validateMetadata` over the remaining entries: the total size of all entries. -/
def validateMetadataFrom (printable : Char → Bool) :
    ℕ → List (String × String) → Except Error ℕ
  | total, [] => .ok total
  | total, (k, v) :: md => do
    reject (k = "") "metadata key must not be empty"
    reject (maxMetadataKeyLen < (asBytes k).length)
      s!"metadata key {debugStr printable k} exceeds {maxMetadataKeyLen} bytes"
    reject (maxMetadataValueLen < (asBytes v).length)
      s!"metadata value for key {debugStr printable k} exceeds {maxMetadataValueLen} bytes"
    reject (hasControlChar k)
      s!"metadata key {debugStr printable k} contains control characters"
    reject (hasControlChar v)
      s!"metadata value for key {debugStr printable k} contains control characters"
    validateMetadataFrom printable (total + ((asBytes k).length + (asBytes v).length)) md

def validateMetadata (printable : Char → Bool) (md : HashMap) : Except Error Unit :=
  if md.entries = [] then .ok ()
  else do
    reject (maxMetadataKeys < md.entries.length)
      s!"metadata has {md.entries.length} keys, maximum {maxMetadataKeys}"
    let total ← validateMetadataFrom printable 0 md.entries
    reject (maxMetadataTotalBytes < total)
      s!"metadata total size {total} exceeds {maxMetadataTotalBytes} bytes"

def validateFinite : ℕ → List F32 → Except Error Unit
  | _, [] => .ok ()
  | i, f :: vector => do
    reject (¬ f.isFinite) s!"publish vector index {i} is NaN or Inf"
    validateFinite (i + 1) vector

def validatePublishItem (text : String) (vector : List F32) : Except Error Unit := do
  reject (text = "" ∧ vector = []) "publish item must have at least one of text or vector"
  reject (text ≠ "" ∧ maxTextBytes < (asBytes text).length)
    s!"publish text exceeds {maxTextBytes} bytes"
  if vector ≠ [] then
    reject (maxVectorDim < vector.length)
      s!"publish vector dim {vector.length} exceeds maximum {maxVectorDim}"
    validateFinite 0 vector
  else .ok ()

def validateVectorMatchesDimensions (vector : List F32) (dimensions : UInt16) :
    Except Error Unit :=
  if vector = [] then .ok ()
  else
    reject (vector.length ≠ dimensions.toNat)
      s!"publish vector dim {vector.length} does not match request dimensions {dimensions}"

theorem bind_eq_ok_iff {ε α β : Type} {x : Except ε α} {f : α → Except ε β} {b : β} :
    x >>= f = .ok b ↔ ∃ a, x = .ok a ∧ f a = .ok b := by
  cases x <;> simp [bind, Except.bind]

/-- A check before the rest. -/
theorem check_bind_eq_ok_iff {ε β : Type} {x : Except ε Unit} {f : Unit → Except ε β} {b : β} :
    x >>= f = .ok b ↔ x = .ok () ∧ f () = .ok b := by
  rw [bind_eq_ok_iff]
  exact Unique.exists_iff

theorem reject_eq_ok_iff {condition : Prop} [Decidable condition] {message : String} {u : Unit} :
    reject condition message = .ok u ↔ ¬ condition := by
  unfold reject
  split_ifs with h <;> simp [h]

theorem validateDimensions_eq_ok_iff {dim : UInt16} {u : Unit} :
    validateDimensions dim = .ok u ↔ dim ≠ 0 ∧ dim.toNat ≤ maxVectorDim := by
  simp [validateDimensions, bind_eq_ok_iff, reject_eq_ok_iff]

theorem validateTarget_eq_ok_iff {nameSpace model : String} {dimensions : UInt16} {u : Unit} :
    validateTarget nameSpace model dimensions = .ok u ↔
      nameSpace ≠ "" ∧ model ≠ "" ∧ dimensions ≠ 0 ∧ dimensions.toNat ≤ maxVectorDim := by
  simp [validateTarget, bind_eq_ok_iff, reject_eq_ok_iff, validateDimensions_eq_ok_iff]

structure EntryFits (kv : String × String) : Prop where
  key_ne : kv.1 ≠ ""
  key_le : (asBytes kv.1).length ≤ maxMetadataKeyLen
  value_le : (asBytes kv.2).length ≤ maxMetadataValueLen
  key_plain : hasControlChar kv.1 = false
  value_plain : hasControlChar kv.2 = false

def metadataSize (md : List (String × String)) : ℕ :=
  (md.map (fun kv => (asBytes kv.1).length + (asBytes kv.2).length)).sum

theorem validateMetadataFrom_eq_ok_iff {printable : Char → Bool} {total n : ℕ}
    {md : List (String × String)} : validateMetadataFrom printable total md = .ok n ↔
      (∀ kv ∈ md, EntryFits kv) ∧ n = total + metadataSize md := by
  induction md generalizing total with
  | nil => simp [validateMetadataFrom, metadataSize, eq_comm]
  | cons kv md ih =>
      obtain ⟨k, v⟩ := kv
      have hfits : EntryFits (k, v) ↔ k ≠ "" ∧ (asBytes k).length ≤ maxMetadataKeyLen ∧
          (asBytes v).length ≤ maxMetadataValueLen ∧ hasControlChar k = false ∧
          hasControlChar v = false :=
        ⟨fun h => ⟨h.1, h.2, h.3, h.4, h.5⟩, fun ⟨h₁, h₂, h₃, h₄, h₅⟩ => ⟨h₁, h₂, h₃, h₄, h₅⟩⟩
      simp only [validateMetadataFrom, bind_eq_ok_iff, reject_eq_ok_iff, ih, List.forall_mem_cons,
        hfits, metadataSize, List.map_cons, List.sum_cons]
      simp [and_assoc, Nat.add_assoc]

theorem validateMetadata_eq_ok_iff {printable : Char → Bool} {md : HashMap} {u : Unit} :
    validateMetadata printable md = .ok u ↔ md.entries.length ≤ maxMetadataKeys ∧
      (∀ kv ∈ md.entries, EntryFits kv) ∧ metadataSize md.entries ≤ maxMetadataTotalBytes := by
  unfold validateMetadata
  split_ifs with h
  · simp [h, metadataSize]
  · simp [bind_eq_ok_iff, reject_eq_ok_iff, validateMetadataFrom_eq_ok_iff, and_assoc]

theorem validateFinite_eq_ok_iff {i : ℕ} {vector : List F32} {u : Unit} :
    validateFinite i vector = .ok u ↔ ∀ f ∈ vector, f.isFinite = true := by
  induction vector generalizing i with
  | nil => simp [validateFinite]
  | cons f vector ih => simp [validateFinite, bind_eq_ok_iff, reject_eq_ok_iff, ih]

theorem validatePublishItem_eq_ok_iff {text : String} {vector : List F32} {u : Unit} :
    validatePublishItem text vector = .ok u ↔ (text ≠ "" ∨ vector ≠ []) ∧
      (asBytes text).length ≤ maxTextBytes ∧ vector.length ≤ maxVectorDim ∧
      ∀ f ∈ vector, f.isFinite = true := by
  have hempty : text = "" → (asBytes text).length ≤ maxTextBytes := by
    rintro rfl
    exact Nat.zero_le _
  unfold validatePublishItem
  by_cases hv : vector = []
  · simp [hv, bind_eq_ok_iff, reject_eq_ok_iff]
    tauto
  · simp [hv, bind_eq_ok_iff, reject_eq_ok_iff, validateFinite_eq_ok_iff]
    tauto

theorem validateVectorMatchesDimensions_eq_ok_iff {vector : List F32} {dimensions : UInt16}
    {u : Unit} : validateVectorMatchesDimensions vector dimensions = .ok u ↔
      (vector ≠ [] → vector.length = dimensions.toNat) := by
  unfold validateVectorMatchesDimensions
  split_ifs with h
  · simp [h]
  · simp [h, reject_eq_ok_iff]

def RejectsOnly {α : Type} (check : Except Error α) : Prop :=
  ∀ err, check = .error err → ∃ message, err = .preflight message

theorem RejectsOnly.ok {α : Type} (a : α) : RejectsOnly (.ok a) := by
  intro err h
  cases h

theorem RejectsOnly.preflight {α : Type} (message : String) :
    RejectsOnly (.error (.preflight message) : Except Error α) := by
  intro err h
  cases h
  exact ⟨message, rfl⟩

theorem RejectsOnly.bind {α β : Type} {check : Except Error α} {rest : α → Except Error β}
    (hcheck : RejectsOnly check) (hrest : ∀ a, RejectsOnly (rest a)) :
    RejectsOnly (check >>= rest) := by
  intro err h
  cases hc : check with
  | ok a =>
      rw [hc] at h
      exact hrest a err h
  | error e =>
      rw [hc] at h
      cases h
      exact hcheck err hc

theorem rejectsOnly_reject (condition : Prop) [Decidable condition] (message : String) :
    RejectsOnly (reject condition message) := by
  unfold reject
  split_ifs
  · exact .preflight message
  · exact .ok ()

theorem rejectsOnly_validateTarget (nameSpace model : String) (dimensions : UInt16) :
    RejectsOnly (validateTarget nameSpace model dimensions) := by
  apply (rejectsOnly_reject _ _).bind
  intro _
  apply (rejectsOnly_reject _ _).bind
  intro _
  apply (rejectsOnly_reject _ _).bind
  intro _
  exact rejectsOnly_reject _ _

theorem rejectsOnly_validateMetadataFrom (printable : Char → Bool) (total : ℕ)
    (md : List (String × String)) : RejectsOnly (validateMetadataFrom printable total md) := by
  induction md generalizing total with
  | nil => exact .ok total
  | cons kv md ih =>
      -- the five checks of the entry come before the rest of the loop
      apply (rejectsOnly_reject _ _).bind
      intro _
      apply (rejectsOnly_reject _ _).bind
      intro _
      apply (rejectsOnly_reject _ _).bind
      intro _
      apply (rejectsOnly_reject _ _).bind
      intro _
      apply (rejectsOnly_reject _ _).bind
      intro _
      exact ih _

theorem rejectsOnly_validateMetadata (printable : Char → Bool) (md : HashMap) :
    RejectsOnly (validateMetadata printable md) := by
  unfold validateMetadata
  split_ifs
  · exact .ok ()
  · apply (rejectsOnly_reject _ _).bind
    intro _
    apply (rejectsOnly_validateMetadataFrom _ _ _).bind
    intro _
    exact rejectsOnly_reject _ _

theorem rejectsOnly_validateFinite (i : ℕ) (vector : List F32) :
    RejectsOnly (validateFinite i vector) := by
  induction vector generalizing i with
  | nil => exact .ok ()
  | cons f vector ih =>
      apply (rejectsOnly_reject _ _).bind
      intro _
      exact ih _

theorem rejectsOnly_validatePublishItem (text : String) (vector : List F32) :
    RejectsOnly (validatePublishItem text vector) := by
  apply (rejectsOnly_reject _ _).bind
  intro _
  apply (rejectsOnly_reject _ _).bind
  intro _
  split_ifs
  · apply (rejectsOnly_reject _ _).bind
    intro _
    exact rejectsOnly_validateFinite _ _
  · exact .ok ()

theorem rejectsOnly_validateVectorMatchesDimensions (vector : List F32) (dimensions : UInt16) :
    RejectsOnly (validateVectorMatchesDimensions vector dimensions) := by
  unfold validateVectorMatchesDimensions
  split_ifs
  · exact .ok ()
  · exact rejectsOnly_reject _ _

end Semantik
