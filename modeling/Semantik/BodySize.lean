import Mathlib.Algebra.Order.BigOperators.Group.List
import Semantik.PublishPreflight

/-!
# Preflight and the sizes of request bodies

The server refuses bodies over a limit for each endpoint. The checks bound the text, the vector,
the metadata and the idempotency key of a publish request, but no check bounds a query, a namespace
or a model, and none looks at the length of the whole body. What is known of the JSON library is how
many bytes it takes for a string and a number at least and at most.
-/

namespace Semantik

open JsonText

/-- What is assumed of the JSON library: the quotes of a string and at most six bytes for each of
its own, and at most `b` bytes for a finite number. -/
structure Dependencies.EncodesWithin (deps : Dependencies) (b : ℕ) : Prop where
  le_str : ∀ s, (asBytes s).length ≤ (deps.encodeStr s).length
  str_le : ∀ s, (deps.encodeStr s).length ≤ 6 * (asBytes s).length + 2
  f32_le : ∀ f : F32, f.isFinite → (deps.encodeF32 f).length ≤ b

variable (deps : Dependencies)

def strLen (s : String) : ℕ := (deps.encodeStr s).length

def f32Len (f : F32) : ℕ := (deps.encodeF32 f).length

def mostStr (s : String) : ℕ := 6 * s.utf8ByteSize + 2

def natLen (n : ℕ) : ℕ := (encodeNat n).length

theorem length_asBytes (s : String) : (asBytes s).length = s.utf8ByteSize := rfl

theorem length_keys : (quoted "query").length = 7 ∧ (quoted "namespace").length = 11 ∧
    (quoted "model").length = 7 ∧ (quoted "limit").length = 7 ∧
    (quoted "dimensions").length = 12 ∧ (quoted "cursor").length = 8 ∧
    (quoted "items").length = 7 ∧ (quoted "vector").length = 8 ∧ (quoted "text").length = 6 ∧
    (quoted "metadata").length = 10 ∧ (quoted "idempotency_key").length = 17 ∧
    (quoted "ack").length = 5 ∧ (quoted "durable").length = 9 := by
  decide

/-- The length of a search if a string takes `str` bytes. -/
def SearchRequest.len (str : String → ℕ) (req : SearchRequest) : ℕ :=
  str req.query + str req.nameSpace + str req.model + (natLen req.dimensions.toNat + 46 +
    if req.limit = 0 then 0 else natLen req.limit.toNat + 9)

def SubscribeRequest.len (str : String → ℕ) (req : SubscribeRequest) : ℕ :=
  str req.query + str req.nameSpace + str req.model + (natLen req.dimensions.toNat + 46)

def LintRequest.len (str : String → ℕ) (req : LintRequest) : ℕ :=
  str req.query + (natLen req.cursor.toNat + 20)

def PublishItem.len (str : String → ℕ) (num : F32 → ℕ) (item : PublishItem) : ℕ :=
  (if item.vector = [] then 0 else (item.vector.map (fun f => num f + 1)).sum + 11) +
  (if item.text = "" then 0 else str item.text + 8) +
  if item.vector = [] ∧ item.text = "" then 2 else 1

/-- The length of a publish but for its namespace and its model. -/
def PublishRequest.checkedLen (str : String → ℕ) (num : F32 → ℕ) (req : PublishRequest) : ℕ :=
  (req.items.map (fun item => item.len str num + 1)).sum +
  (if req.metadata.entries = [] then 0
    else (req.metadata.entries.map (fun kv => str kv.1 + str kv.2 + 2)).sum + 13) +
  (match req.idempotencyKey with
    | some k => str k + 19
    | none => 0) +
  (match req.ack with
    | .stored => 0
    | .durable => 16) +
  (natLen req.dimensions.toNat + 47)

def PublishRequest.len (str : String → ℕ) (num : F32 → ℕ) (req : PublishRequest) : ℕ :=
  str req.nameSpace + str req.model + req.checkedLen str num

theorem SearchRequest.length_toVec (req : SearchRequest) :
    (req.toVec deps).length = req.len (strLen deps) := by
  unfold toVec len
  rw [length_object (by simp)]
  split_ifs with h
  · simp [length_keys, strLen, natLen]
    omega
  · simp [length_keys, strLen, natLen]
    omega

theorem SubscribeRequest.length_toVec (req : SubscribeRequest) :
    (req.toVec deps).length = req.len (strLen deps) := by
  rw [toVec, len, length_object (by simp)]
  simp [length_keys, strLen, natLen]
  omega

theorem LintRequest.length_toVec (req : LintRequest) :
    (req.toVec deps).length = req.len (strLen deps) := by
  rw [toVec, len, length_object (by simp)]
  simp [length_keys, strLen, natLen]
  omega

theorem PublishItem.length_toVec (item : PublishItem) :
    (item.toVec deps).length = item.len (strLen deps) (f32Len deps) := by
  unfold toVec len
  by_cases hv : item.vector = []
  · by_cases ht : item.text = ""
    · simp [hv, ht, object, commaSeparated]
    · rw [if_pos hv, if_neg ht, length_object (by simp)]
      simp [hv, ht, length_keys, strLen]
      omega
  · have hne : item.vector.map deps.encodeF32 ≠ [] := by simpa using hv
    have harray := length_array hne
    rw [List.map_map] at harray
    by_cases ht : item.text = ""
    · rw [if_neg hv, if_pos ht, length_object (by simp)]
      simp [hv, ht, length_keys, harray, f32Len, Function.comp_def]
      omega
    · rw [if_neg hv, if_neg ht, length_object (by simp)]
      simp [hv, ht, length_keys, harray, strLen, f32Len, Function.comp_def]
      omega

theorem PublishRequest.length_toVec {req : PublishRequest} (h : req.items ≠ []) :
    (req.toVec deps).length = req.len (strLen deps) (f32Len deps) := by
  have hne : req.items.map (PublishItem.toVec deps) ≠ [] := by simpa using h
  have harray := length_array hne
  rw [List.map_map] at harray
  simp only [Function.comp_def, PublishItem.length_toVec] at harray
  have hmap : req.metadata.entries ≠ [] → (encodeMap deps req.metadata).length =
      (req.metadata.entries.map (fun kv => strLen deps kv.1 + strLen deps kv.2 + 2)).sum + 1 := by
    intro hne
    rw [encodeMap, length_object (by simpa using hne), List.map_map]
    rfl
  unfold toVec len checkedLen
  rw [length_object (by simp)]
  by_cases hmd : req.metadata.entries = []
  all_goals
    cases req.idempotencyKey
    all_goals
      cases req.ack
      all_goals
        simp [hmd, hmap, harray, length_keys, strLen, natLen]
        omega

section

variable {str str' : String → ℕ} (hstr : ∀ s, str s ≤ str' s)

include hstr

theorem SearchRequest.len_mono (req : SearchRequest) : req.len str ≤ req.len str' :=
  Nat.add_le_add_right
    (Nat.add_le_add (Nat.add_le_add (hstr _) (hstr _)) (hstr _)) _

theorem SubscribeRequest.len_mono (req : SubscribeRequest) : req.len str ≤ req.len str' :=
  Nat.add_le_add_right
    (Nat.add_le_add (Nat.add_le_add (hstr _) (hstr _)) (hstr _)) _

theorem LintRequest.len_mono (req : LintRequest) : req.len str ≤ req.len str' :=
  Nat.add_le_add_right (hstr _) _

variable {num num' : F32 → ℕ}

theorem PublishItem.len_mono {item : PublishItem} (hnum : ∀ f ∈ item.vector, num f ≤ num' f) :
    item.len str num ≤ item.len str' num' := by
  have hsum : (item.vector.map (fun f => num f + 1)).sum ≤
      (item.vector.map (fun f => num' f + 1)).sum :=
    List.sum_le_sum fun f hf => Nat.succ_le_succ (hnum f hf)
  have htext := hstr item.text
  unfold len
  split_ifs <;> omega

theorem PublishRequest.len_mono {req : PublishRequest}
    (hnum : ∀ item ∈ req.items, ∀ f ∈ item.vector, num f ≤ num' f) :
    req.len str num ≤ req.len str' num' := by
  have hitems : (req.items.map (fun item => item.len str num + 1)).sum ≤
      (req.items.map (fun item => item.len str' num' + 1)).sum :=
    List.sum_le_sum fun item hitem => Nat.succ_le_succ (PublishItem.len_mono hstr (hnum item hitem))
  have hmd : (req.metadata.entries.map (fun kv => str kv.1 + str kv.2 + 2)).sum ≤
      (req.metadata.entries.map (fun kv => str' kv.1 + str' kv.2 + 2)).sum :=
    List.sum_le_sum fun kv _ =>
      Nat.add_le_add_right (Nat.add_le_add (hstr kv.1) (hstr kv.2)) 2
  have hnameSpace := hstr req.nameSpace
  have hmodel := hstr req.model
  unfold len checkedLen
  cases req.idempotencyKey with
  | none => split_ifs <;> dsimp only <;> omega
  | some k =>
      have hkey := hstr k
      split_ifs <;> dsimp only <;> omega

end

theorem SearchRequest.len_mostStr (req : SearchRequest) : req.len mostStr =
    6 * (req.query.utf8ByteSize + req.nameSpace.utf8ByteSize + req.model.utf8ByteSize) +
      (natLen req.dimensions.toNat + 52 +
        if req.limit = 0 then 0 else natLen req.limit.toNat + 9) := by
  unfold len mostStr
  omega

theorem SubscribeRequest.len_mostStr (req : SubscribeRequest) : req.len mostStr =
    6 * (req.query.utf8ByteSize + req.nameSpace.utf8ByteSize + req.model.utf8ByteSize) +
      (natLen req.dimensions.toNat + 52) := by
  unfold len mostStr
  omega

theorem LintRequest.len_mostStr (req : LintRequest) : req.len mostStr =
    6 * req.query.utf8ByteSize + (natLen req.cursor.toNat + 22) := by
  unfold len mostStr
  omega

theorem PublishRequest.len_mostStr (num : F32 → ℕ) (req : PublishRequest) :
    req.len mostStr num = 6 * (req.nameSpace.utf8ByteSize + req.model.utf8ByteSize) + 4 +
      req.checkedLen mostStr num := by
  rw [len, mostStr, mostStr]
  omega

section

variable {str : String → ℕ} (hstr : ∀ s, s.utf8ByteSize ≤ str s)

include hstr

theorem SearchRequest.le_len (req : SearchRequest) : req.query.utf8ByteSize +
    req.nameSpace.utf8ByteSize + req.model.utf8ByteSize ≤ req.len str :=
  (Nat.add_le_add (Nat.add_le_add (hstr _) (hstr _)) (hstr _)).trans (Nat.le_add_right _ _)

theorem SubscribeRequest.le_len (req : SubscribeRequest) : req.query.utf8ByteSize +
    req.nameSpace.utf8ByteSize + req.model.utf8ByteSize ≤ req.len str :=
  (Nat.add_le_add (Nat.add_le_add (hstr _) (hstr _)) (hstr _)).trans (Nat.le_add_right _ _)

theorem LintRequest.le_len (req : LintRequest) : req.query.utf8ByteSize ≤ req.len str :=
  (hstr _).trans (Nat.le_add_right _ _)

theorem PublishRequest.le_len (num : F32 → ℕ) (req : PublishRequest) :
    req.nameSpace.utf8ByteSize + req.model.utf8ByteSize ≤ req.len str num :=
  (Nat.add_le_add (hstr _) (hstr _)).trans (Nat.le_add_right _ _)

end

theorem utf8Size_digitChar (d : ℕ) (h : d < 10) : (Nat.digitChar d).utf8Size = 1 := by
  interval_cases d <;> decide

theorem natLen_le {n k : ℕ} (h : n < 10 ^ (k + 1)) : natLen n ≤ k + 1 := by
  induction k generalizing n with
  | zero =>
      rw [natLen, encodeNat, length_asBytes, Nat.toString_eq_repr, Nat.repr_of_lt (by omega),
        String.utf8ByteSize_singleton, utf8Size_digitChar n (by omega)]
  | succ k ih =>
      by_cases hn : n < 10
      · rw [natLen, encodeNat, length_asBytes, Nat.toString_eq_repr, Nat.repr_of_lt hn,
          String.utf8ByteSize_singleton, utf8Size_digitChar n hn]
        omega
      · have hlt : n / 10 < 10 ^ (k + 1) := by omega
        have hdiv := ih hlt
        have hmod : n % 10 < 10 := Nat.mod_lt _ (by norm_num)
        rw [natLen, encodeNat, length_asBytes, Nat.toString_eq_repr] at hdiv ⊢
        rw [Nat.repr_of_ge (not_lt.1 hn), String.utf8ByteSize_append,
          String.utf8ByteSize_singleton, utf8Size_digitChar _ hmod]
        omega

theorem item_len_le {item : PublishItem} {dimensions : ℕ} (h : ItemDocumented item dimensions)
    (hdim : dimensions ≤ maxVectorDim) (b : ℕ) :
    item.len mostStr (fun _ => b) ≤ maxVectorDim * (b + 1) + 6 * maxTextBytes + 23 := by
  have htext : item.text.utf8ByteSize ≤ maxTextBytes := h.text_size
  have hlength : item.vector.length ≤ maxVectorDim := by
    by_cases hnil : item.vector = []
    · rw [hnil]
      exact Nat.zero_le _
    · rw [h.vector_length hnil]
      exact hdim
  have hvector := Nat.mul_le_mul_right (b + 1) hlength
  unfold PublishItem.len mostStr
  rw [List.map_const', List.sum_replicate_nat]
  split_ifs <;> omega

theorem metadata_len_le (md : List (String × String)) :
    (md.map (fun kv => mostStr kv.1 + mostStr kv.2 + 2)).sum =
      6 * (md.map fun kv => kv.1.utf8ByteSize + kv.2.utf8ByteSize).sum + 6 * md.length := by
  induction md with
  | nil => rfl
  | cons kv md ih =>
      simp only [mostStr, List.map_cons, List.sum_cons, List.length_cons] at ih ⊢
      omega

def checkedBound (b : ℕ) : ℕ :=
  maxVectorDim * (b + 1) + 6 * maxTextBytes + 6 * maxMetadataTotalBytes + 6 * maxMetadataKeys +
    6 * maxIdempotencyKeyLen + 127

example : checkedBound 24 < 320 * 1024 := by decide

theorem checkedLen_le {req : PublishRequest} (h : req.Documented) (b : ℕ) :
    req.checkedLen mostStr (fun _ => b) ≤ checkedBound b := by
  obtain ⟨item, hitems, hitem⟩ := h.item
  have hdim := h.dimensions.2
  have hcount : req.metadata.entries.length ≤ maxMetadataKeys := h.entries_length
  have htotal := h.entries_size
  have hdigits : natLen req.dimensions.toNat ≤ 4 := by
    apply natLen_le
    omega
  have hitem := item_len_le hitem hdim b
  have hmd := metadata_len_le req.metadata.entries
  unfold PublishRequest.checkedLen checkedBound
  rw [hitems, List.map_singleton, List.sum_singleton]
  cases hk : req.idempotencyKey with
  | none => cases req.ack <;> split_ifs <;> dsimp only [maxMetadataTotalBytes] <;> omega
  | some k =>
      have hkey := h.idempotencyKey k hk
      have hkeyLen : mostStr k ≤ 6 * maxIdempotencyKeyLen + 2 := by
        unfold mostStr maxIdempotencyKeyLen
        omega
      cases req.ack <;> split_ifs <;> dsimp only [maxMetadataTotalBytes] <;> omega

/-- A JSON library that takes as many bytes as it may. -/
def Dependencies.longest (b : ℕ) : Dependencies :=
  { Dependencies.sample with
    encodeStr := fun s => List.replicate (mostStr s) 0x22
    encodeF32 := fun _ => List.replicate b 0x30 }

theorem encodesWithin_longest (b : ℕ) : (Dependencies.longest b).EncodesWithin b where
  le_str s := by
    rw [Dependencies.longest, List.length_replicate, mostStr, length_asBytes]
    omega
  str_le s := by
    rw [Dependencies.longest, List.length_replicate, mostStr, length_asBytes]
  f32_le f _ := by
    rw [Dependencies.longest, List.length_replicate]

theorem strLen_longest (b : ℕ) : strLen (.longest b) = mostStr := by
  funext s
  exact List.length_replicate

theorem f32Len_longest (b : ℕ) : f32Len (.longest b) = fun _ => b := by
  funext f
  exact List.length_replicate

section

variable {deps} {b : ℕ} (hdeps : deps.EncodesWithin b)

include hdeps

theorem strLen_le (s : String) : strLen deps s ≤ mostStr s := hdeps.str_le s

theorem le_strLen (s : String) : s.utf8ByteSize ≤ strLen deps s := hdeps.le_str s

end

structure TargetDocumented (nameSpace model : String) (dimensions : UInt16) : Prop where
  nameSpace : nameSpace ≠ ""
  model : model ≠ ""
  dimensions : 1 ≤ dimensions.toNat ∧ dimensions.toNat ≤ 4096

structure SearchRequest.Documented (req : SearchRequest) : Prop where
  query : req.query ≠ ""
  target : TargetDocumented req.nameSpace req.model req.dimensions

structure SubscribeRequest.Documented (req : SubscribeRequest) : Prop where
  query : req.query ≠ ""
  target : TargetDocumented req.nameSpace req.model req.dimensions

structure LintRequest.Documented (req : LintRequest) : Prop where
  query : req.query ≠ ""
  cursor : req.cursor.toNat ≤ req.query.utf8ByteSize

theorem validateTarget_eq_ok_iff_documented {nameSpace model : String} {dimensions : UInt16} :
    validateTarget nameSpace model dimensions = .ok () ↔
      TargetDocumented nameSpace model dimensions := by
  have hpos : dimensions ≠ 0 ↔ 1 ≤ dimensions.toNat := by
    rw [Nat.one_le_iff_ne_zero, Ne, Ne, ← UInt16.toNat_inj]
    rfl
  rw [validateTarget_eq_ok_iff, hpos]
  constructor
  · rintro ⟨hnameSpace, hmodel, hdimensions⟩
    exact ⟨hnameSpace, hmodel, hdimensions⟩
  · rintro ⟨hnameSpace, hmodel, hdimensions⟩
    exact ⟨hnameSpace, hmodel, hdimensions⟩

theorem SearchRequest.validate_eq_ok_iff {req : SearchRequest} :
    req.validate = .ok () ↔ req.Documented := by
  rw [validate, check_bind_eq_ok_iff, reject_eq_ok_iff, validateTarget_eq_ok_iff_documented]
  exact ⟨fun h => ⟨h.1, h.2⟩, fun h => ⟨h.1, h.2⟩⟩

theorem SubscribeRequest.validate_eq_ok_iff {req : SubscribeRequest} :
    req.validate = .ok () ↔ req.Documented := by
  rw [validate, check_bind_eq_ok_iff, reject_eq_ok_iff, validateTarget_eq_ok_iff_documented]
  exact ⟨fun h => ⟨h.1, h.2⟩, fun h => ⟨h.1, h.2⟩⟩

theorem LintRequest.validate_eq_ok_iff {req : LintRequest} :
    req.validate = .ok () ↔ req.Documented := by
  rw [validate, check_bind_eq_ok_iff, reject_eq_ok_iff, reject_eq_ok_iff, not_lt]
  exact ⟨fun h => ⟨h.1, h.2⟩, fun h => ⟨h.1, h.2⟩⟩

/-- A body keeps its limit under all JSON libraries of this kind if the longest one does. -/
theorem keeps_iff {b limit most : ℕ} {accepted : Dependencies → Prop} {documented : Prop}
    {body : Dependencies → List UInt8} (haccepted : ∀ deps, accepted deps ↔ documented)
    (hle : documented → ∀ deps : Dependencies, deps.EncodesWithin b → (body deps).length ≤ most)
    (hlongest : documented → (body (.longest b)).length = most) :
    (∀ deps : Dependencies, deps.EncodesWithin b → accepted deps → (body deps).length ≤ limit) ↔
      (documented → most ≤ limit) := by
  constructor
  · intro h hdoc
    rw [← hlongest hdoc]
    exact h _ (encodesWithin_longest b) ((haccepted _).2 hdoc)
  · intro h deps hdeps hok
    have hdoc := (haccepted deps).1 hok
    exact (hle hdoc deps hdeps).trans (h hdoc)

theorem PublishRequest.keeps_iff (b : ℕ) (req : PublishRequest) :
    (∀ deps : Dependencies, deps.EncodesWithin b → req.validate deps.printable = .ok () →
        (req.toVec deps).length ≤ maxPublishBodyBytes) ↔
      (req.Documented → req.len mostStr (fun _ => b) ≤ maxPublishBodyBytes) := by
  have hitems : req.Documented → req.items ≠ [] := by
    intro hdoc
    obtain ⟨item, hitems, -⟩ := hdoc.item
    rw [hitems]
    exact List.cons_ne_nil _ _
  refine Semantik.keeps_iff (fun deps => validate_eq_ok_iff_documented _ req) ?_ ?_
  · intro hdoc deps hdeps
    rw [length_toVec deps (hitems hdoc)]
    apply len_mono (strLen_le hdeps)
    intro item hmem f hf
    obtain ⟨item', hitems', hitem⟩ := hdoc.item
    obtain rfl : item = item' := by
      rw [hitems'] at hmem
      exact List.mem_singleton.1 hmem
    exact hdeps.f32_le f (hitem.vector_finite f hf)
  · intro hdoc
    rw [length_toVec _ (hitems hdoc), strLen_longest, f32Len_longest]

theorem SearchRequest.keeps_iff (b : ℕ) (req : SearchRequest) :
    (∀ deps : Dependencies, deps.EncodesWithin b → req.validate = .ok () →
        (req.toVec deps).length ≤ maxSearchBodyBytes) ↔
      (req.Documented → req.len mostStr ≤ maxSearchBodyBytes) := by
  refine Semantik.keeps_iff (fun _ => validate_eq_ok_iff) ?_ ?_
  · intro _ deps hdeps
    rw [length_toVec]
    exact len_mono (strLen_le hdeps) req
  · intro _
    rw [length_toVec, strLen_longest]

theorem SubscribeRequest.keeps_iff (b : ℕ) (req : SubscribeRequest) :
    (∀ deps : Dependencies, deps.EncodesWithin b → req.validate = .ok () →
        (req.toVec deps).length ≤ maxSubscribeBodyBytes) ↔
      (req.Documented → req.len mostStr ≤ maxSubscribeBodyBytes) := by
  refine Semantik.keeps_iff (fun _ => validate_eq_ok_iff) ?_ ?_
  · intro _ deps hdeps
    rw [length_toVec]
    exact len_mono (strLen_le hdeps) req
  · intro _
    rw [length_toVec, strLen_longest]

theorem LintRequest.keeps_iff (b : ℕ) (req : LintRequest) :
    (∀ deps : Dependencies, deps.EncodesWithin b → req.validate = .ok () →
        (req.toVec deps).length ≤ maxLintBodyBytes) ↔
      (req.Documented → req.len mostStr ≤ maxLintBodyBytes) := by
  refine Semantik.keeps_iff (fun _ => validate_eq_ok_iff) ?_ ?_
  · intro _ deps hdeps
    rw [length_toVec]
    exact len_mono (strLen_le hdeps) req
  · intro _
    rw [length_toVec, strLen_longest]

/-- Whatever JSON library of this kind it uses, an accepted request keeps its limit: exactly if six
bytes for each byte of its strings leave room for the rest, and what the checked parts of a publish
take is bounded. And under each of them it breaks its limit if the strings that no check bounds are
longer than that already. -/
theorem body_le_limit_iff (b : ℕ) :
    (∀ req : PublishRequest,
      (∀ deps : Dependencies, deps.EncodesWithin b → req.validate deps.printable = .ok () →
        (req.toVec deps).length ≤ maxPublishBodyBytes) ↔
      (req.Documented → 6 * (req.nameSpace.utf8ByteSize + req.model.utf8ByteSize) + 4 +
        req.checkedLen mostStr (fun _ => b) ≤ maxPublishBodyBytes)) ∧
    (∀ req : PublishRequest, req.Documented →
      req.checkedLen mostStr (fun _ => b) ≤ checkedBound b) ∧
    (∀ req : SearchRequest,
      (∀ deps : Dependencies, deps.EncodesWithin b → req.validate = .ok () →
        (req.toVec deps).length ≤ maxSearchBodyBytes) ↔
      (req.Documented → 6 * (req.query.utf8ByteSize + req.nameSpace.utf8ByteSize +
        req.model.utf8ByteSize) + (natLen req.dimensions.toNat + 52 +
          if req.limit = 0 then 0 else natLen req.limit.toNat + 9) ≤ maxSearchBodyBytes)) ∧
    (∀ req : SubscribeRequest,
      (∀ deps : Dependencies, deps.EncodesWithin b → req.validate = .ok () →
        (req.toVec deps).length ≤ maxSubscribeBodyBytes) ↔
      (req.Documented → 6 * (req.query.utf8ByteSize + req.nameSpace.utf8ByteSize +
        req.model.utf8ByteSize) + (natLen req.dimensions.toNat + 52) ≤ maxSubscribeBodyBytes)) ∧
    (∀ req : LintRequest,
      (∀ deps : Dependencies, deps.EncodesWithin b → req.validate = .ok () →
        (req.toVec deps).length ≤ maxLintBodyBytes) ↔
      (req.Documented → 6 * req.query.utf8ByteSize + (natLen req.cursor.toNat + 22) ≤
        maxLintBodyBytes)) ∧
    ∀ deps : Dependencies, deps.EncodesWithin b →
      (∀ req : PublishRequest, req.validate deps.printable = .ok () →
        maxPublishBodyBytes < req.nameSpace.utf8ByteSize + req.model.utf8ByteSize →
        maxPublishBodyBytes < (req.toVec deps).length) ∧
      (∀ req : SearchRequest, maxSearchBodyBytes < req.query.utf8ByteSize +
          req.nameSpace.utf8ByteSize + req.model.utf8ByteSize →
        maxSearchBodyBytes < (req.toVec deps).length) ∧
      (∀ req : SubscribeRequest, maxSubscribeBodyBytes < req.query.utf8ByteSize +
          req.nameSpace.utf8ByteSize + req.model.utf8ByteSize →
        maxSubscribeBodyBytes < (req.toVec deps).length) ∧
      ∀ req : LintRequest, maxLintBodyBytes < req.query.utf8ByteSize →
        maxLintBodyBytes < (req.toVec deps).length := by
  refine ⟨?_, fun req hdoc => checkedLen_le hdoc b, ?_, ?_, ?_, ?_⟩
  · intro req
    rw [req.keeps_iff b, req.len_mostStr]
  · intro req
    rw [req.keeps_iff b, req.len_mostStr]
  · intro req
    rw [req.keeps_iff b, req.len_mostStr]
  · intro req
    rw [req.keeps_iff b, req.len_mostStr]
  · intro deps hdeps
    refine ⟨?_, ?_, ?_, ?_⟩
    · intro req hok hlong
      obtain ⟨item, hitems, -⟩ := PublishRequest.validate_eq_ok_iff.1 hok
      rw [PublishRequest.length_toVec deps (by simp [hitems])]
      exact hlong.trans_le (req.le_len (le_strLen hdeps) _)
    · intro req hlong
      rw [req.length_toVec]
      exact hlong.trans_le (req.le_len (le_strLen hdeps))
    · intro req hlong
      rw [req.length_toVec]
      exact hlong.trans_le (req.le_len (le_strLen hdeps))
    · intro req hlong
      rw [req.length_toVec]
      exact hlong.trans_le (req.le_len (le_strLen hdeps))

def longSearch (n : ℕ) : SearchRequest where
  query := String.ofList (List.replicate n 'a')
  nameSpace := "global"
  model := "m"
  dimensions := 1024

theorem utf8ByteSize_replicate (n : ℕ) :
    (String.ofList (List.replicate n 'a')).utf8ByteSize = n := by
  induction n with
  | zero => rfl
  | succ n ih =>
      have ha : 'a'.utf8Size = 1 := by decide
      rw [List.replicate_succ, String.ofList_cons, String.utf8ByteSize_append, ih,
        String.utf8ByteSize_singleton, ha]
      omega

theorem length_longSearch (n : ℕ) : (asBytes (longSearch n).query).length = n :=
  utf8ByteSize_replicate n

theorem validate_longSearch {n : ℕ} (h : 0 < n) : (longSearch n).validate = .ok () := by
  have hne : (longSearch n).query ≠ "" := by
    intro hnil
    have hlen := length_longSearch n
    rw [hnil] at hlen
    exact absurd hlen h.ne
  have htarget : validateTarget "global" "m" 1024 = .ok () := by decide
  rw [SearchRequest.validate, check_bind_eq_ok_iff, reject_eq_ok_iff]
  exact ⟨hne, htarget⟩

theorem encodesWithin_sample : Dependencies.sample.EncodesWithin 3 where
  le_str s := by
    simp only [Dependencies.sample, List.length_cons, List.length_append]
    omega
  str_le s := by
    simp [Dependencies.sample]
    omega
  f32_le f _ := by
    simp only [Dependencies.sample]
    decide

/-- A search whose query alone is as long as the limit passes preflight, and its body is too
long. -/
theorem longSearch_over_limit : Dependencies.sample.EncodesWithin 3 ∧
    (longSearch 1048576).validate = .ok () ∧
      ¬ ((longSearch 1048576).toVec .sample).length ≤ maxSearchBodyBytes := by
  have hquery := encodesWithin_sample.le_str (longSearch 1048576).query
  rw [length_longSearch] at hquery
  refine ⟨encodesWithin_sample, validate_longSearch (by norm_num), ?_⟩
  rw [SearchRequest.length_toVec, SearchRequest.len, strLen, maxSearchBodyBytes]
  omega

/-- A short query keeps the limit under every JSON library of the kind, and a query of one byte more
than the limit breaks it. -/
theorem body_le_limit_iff_longSearch :
    (∀ deps : Dependencies, deps.EncodesWithin 24 → (longSearch 1000).validate = .ok () →
      ((longSearch 1000).toVec deps).length ≤ maxSearchBodyBytes) ∧
    maxSearchBodyBytes < ((longSearch 1048577).toVec .sample).length := by
  have hshort : (longSearch 1000).query.utf8ByteSize = 1000 := utf8ByteSize_replicate 1000
  have hlong : (longSearch 1048577).query.utf8ByteSize = 1048577 :=
    utf8ByteSize_replicate 1048577
  have hdigits : natLen (longSearch 1000).dimensions.toNat ≤ 4 := natLen_le (by decide)
  have hrest : (longSearch 1000).nameSpace.utf8ByteSize +
      (longSearch 1000).model.utf8ByteSize = 7 := by
    change "global".utf8ByteSize + "m".utf8ByteSize = 7
    decide
  refine ⟨((body_le_limit_iff 24).2.2.1 (longSearch 1000)).2 ?_,
    ((body_le_limit_iff 3).2.2.2.2.2 .sample encodesWithin_sample).2.1 (longSearch 1048577) ?_⟩
  · intro _
    rw [hshort, maxSearchBodyBytes, if_pos (show (longSearch 1000).limit = 0 from rfl)]
    omega
  · rw [hlong, maxSearchBodyBytes]
    omega

end Semantik
