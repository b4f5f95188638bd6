import Semantik.Lib.JsonReading
import Semantik.Requests
import Semantik.RustParse

/-!
# The text of a request determines it

Neither a field that is left out at its default nor any string or metadata in a request makes two
requests the same text, as far as the JSON library escapes strings and writes finite numbers as
numbers.
-/

namespace Semantik

open JsonText

def isNumberByte (b : UInt8) : Bool :=
  (0x30 ≤ b && b ≤ 0x39) || b = 0x2B || b = 0x2D || b = 0x2E || b = 0x65 || b = 0x45

/-- What the JSON library documents of the text it writes: a string is escaped character by
character, and a finite number is written with the symbols of numbers and so that it is read back
as it was. -/
structure WritesJson (deps : Dependencies) : Prop where
  encodeStr : ∃ escape : Char → List UInt8, Escapes escape ∧
    ∀ s, deps.encodeStr s = stringText escape s.toList
  number : ∀ f : F32, f.isFinite = true → deps.encodeF32 f ≠ [] ∧
    ∀ b ∈ deps.encodeF32 f, isNumberByte b = true
  exact : ∀ f g : F32, f.isFinite = true → g.isFinite = true →
    deps.encodeF32 f = deps.encodeF32 g → f = g

theorem not_isEnd_of_isNumberByte {b : UInt8} (h : isNumberByte b = true) : ¬ IsEnd b := by
  rintro (rfl | rfl | rfl) <;> revert h <;> decide

theorem isNumberByte_of_isDigit {c : Char} (h : c.isDigit = true) :
    isNumberByte (Utf8.asciiByte c) = true := by
  have hc := toNat_of_isDigit h
  have hb : (Utf8.asciiByte c).toNat = c.toNat := Utf8.toNat_asciiByte (by omega)
  have hlow : (0x30 : UInt8) ≤ Utf8.asciiByte c := UInt8.le_iff_toNat_le.2 (hb ▸ hc.1)
  have hhigh : Utf8.asciiByte c ≤ 0x39 := UInt8.le_iff_toNat_le.2 (hb ▸ hc.2)
  simp [isNumberByte, hlow, hhigh]

theorem encodeNat_eq (n : ℕ) : encodeNat n = (Nat.toDigits 10 n).map Utf8.asciiByte := by
  rw [encodeNat, Nat.toString_eq_repr, asBytes_eq, Nat.toList_repr]
  apply Utf8.encode_ascii
  intro c hc
  have hdigit := toNat_of_isDigit (Nat.isDigit_of_mem_toDigits (by decide) (by decide) hc)
  omega

theorem readable_encodeNat : Readable Set.univ encodeNat := by
  apply readable_of_plain
  · intro n _ m _ h
    have hrepr : Nat.repr n = Nat.repr m := asBytes_inj.1 h
    have hdigits : Nat.toDigits 10 n = Nat.toDigits 10 m := by
      rw [← Nat.toList_repr, hrepr, Nat.toList_repr]
    rw [← Nat.ofDigitChars_ten_toDigits (n := n), hdigits, Nat.ofDigitChars_ten_toDigits]
  · intro n _
    rw [encodeNat_eq]
    refine ⟨by simp, ?_⟩
    intro b hb
    obtain ⟨c, hc, rfl⟩ := List.mem_map.1 hb
    exact not_isEnd_of_isNumberByte (isNumberByte_of_isDigit
      (Nat.isDigit_of_mem_toDigits (by decide) (by decide) hc))

section

variable {deps : Dependencies} (h : WritesJson deps)

include h

theorem WritesJson.selfDelimiting : SelfDelimiting Set.univ deps.encodeStr := by
  obtain ⟨escape, hescape, htext⟩ := h.encodeStr
  intro a _ b _ s t heq
  rw [htext, htext] at heq
  obtain ⟨hchars, hst⟩ := selfDelimiting_stringText hescape _ (Set.mem_univ _) _ (Set.mem_univ _) heq
  exact ⟨String.toList_inj.1 hchars, hst⟩

theorem WritesJson.start (s : String) :
    ∃ b rest, deps.encodeStr s = b :: rest ∧ ¬ IsEnd b := by
  obtain ⟨escape, -, htext⟩ := h.encodeStr
  exact ⟨quote, _, htext s, by decide⟩

theorem WritesJson.readable_encodeStr : Readable Set.univ deps.encodeStr :=
  h.selfDelimiting.readable fun s _ => h.start s

theorem WritesJson.readable_encodeF32 : Readable {f | f.isFinite = true} deps.encodeF32 :=
  readable_of_plain (fun f hf g hg => h.exact f g hf hg) fun f hf =>
    ⟨(h.number f hf).1, fun b hb => not_isEnd_of_isNumberByte ((h.number f hf).2 b hb)⟩

end

/-- Names without quotes in them are read up to the quote. -/
theorem quoted_append_inj {name name' : String} (hname : '"' ∉ name.toList)
    (hname' : '"' ∉ name'.toList) {s t : List UInt8} (heq : quoted name ++ s = quoted name' ++ t) :
    name = name' ∧ s = t := by
  have hplain : ∀ {name : String}, '"' ∉ name.toList → ∀ b ∈ asBytes name, ¬ b = quote := by
    rintro name h b hb rfl
    rw [asBytes_eq, Utf8.mem_encode_ascii (by decide)] at hb
    obtain ⟨c, hc, hcode⟩ := hb
    have hquote : c = '"' := Char.toNat_inj.1 hcode
    exact h (hquote ▸ hc)
  have htext : ∀ (name : String) (rest : List UInt8),
      quoted name ++ rest = quote :: (asBytes name ++ quote :: rest) := by
    intro name rest
    rw [quoted, asBytes_append, asBytes_append, show asBytes "\"" = [quote] from rfl]
    simp
  rw [htext, htext] at heq
  have hrest := (List.cons_eq_cons.1 heq).2
  have hbytes := append_inj_of_plain (hplain hname) (hplain hname') (by simp) (by simp) hrest
  rw [hbytes] at hrest
  exact ⟨asBytes_inj.1 hbytes, (List.cons_eq_cons.1 (List.append_cancel_left hrest)).2⟩

variable (deps : Dependencies)

def valueTexts (name : String) : Set (List UInt8) :=
  if name = "vector" then
    Set.image (arrayText deps.encodeF32) {vector | ∀ f ∈ vector, f.isFinite = true}
  else if name = "items" then
    Set.image (arrayText (PublishItem.toVec deps))
      {items | ∀ item ∈ items, ∀ f ∈ item.vector, f.isFinite = true}
  else if name = "metadata" then Set.range (encodeMap deps)
  else if name = "ack" then {quoted "durable"}
  else if name = "dimensions" ∨ name = "limit" ∨ name = "cursor" then Set.range encodeNat
  else Set.range deps.encodeStr

def PublishItem.fields (item : PublishItem) : List (String × Option (List UInt8)) :=
  [("vector", omitAt [] (arrayText deps.encodeF32) item.vector),
    ("text", omitAt "" deps.encodeStr item.text)]

def PublishRequest.fields (req : PublishRequest) : List (String × Option (List UInt8)) :=
  [("items", some (arrayText (PublishItem.toVec deps) req.items)),
    ("namespace", some (deps.encodeStr req.nameSpace)),
    ("model", some (deps.encodeStr req.model)),
    ("dimensions", some (encodeNat req.dimensions.toNat)),
    ("metadata", omitAt ⟨[], List.nodup_nil⟩ (encodeMap deps) req.metadata),
    ("idempotency_key", req.idempotencyKey.map deps.encodeStr),
    ("ack", omitAt .stored (fun _ => quoted "durable") req.ack)]

def SearchRequest.fields (req : SearchRequest) : List (String × Option (List UInt8)) :=
  [("query", some (deps.encodeStr req.query)),
    ("namespace", some (deps.encodeStr req.nameSpace)),
    ("model", some (deps.encodeStr req.model)),
    ("limit", omitAt 0 (fun limit => encodeNat limit.toNat) req.limit),
    ("dimensions", some (encodeNat req.dimensions.toNat))]

def SubscribeRequest.fields (req : SubscribeRequest) : List (String × Option (List UInt8)) :=
  [("query", some (deps.encodeStr req.query)),
    ("namespace", some (deps.encodeStr req.nameSpace)),
    ("model", some (deps.encodeStr req.model)),
    ("dimensions", some (encodeNat req.dimensions.toNat))]

def LintRequest.fields (req : LintRequest) : List (String × Option (List UInt8)) :=
  [("query", some (deps.encodeStr req.query)), ("cursor", some (encodeNat req.cursor.toNat))]

theorem PublishItem.toVec_eq (item : PublishItem) :
    item.toVec deps = fieldsText quoted (item.fields deps) := by
  unfold PublishItem.toVec fieldsText PublishItem.fields omitAt
  split_ifs <;> rfl

theorem PublishRequest.toVec_eq (req : PublishRequest) :
    req.toVec deps = fieldsText quoted (req.fields deps) := by
  have hempty : req.metadata.entries = [] ↔ req.metadata = ⟨[], List.nodup_nil⟩ := by
    cases req.metadata
    simp
  unfold PublishRequest.toVec fieldsText PublishRequest.fields omitAt
  by_cases hmd : req.metadata = ⟨[], List.nodup_nil⟩
  · simp only [hempty, if_pos hmd]
    cases req.idempotencyKey <;> cases req.ack <;> rfl
  · simp only [hempty, if_neg hmd]
    cases req.idempotencyKey <;> cases req.ack <;> rfl

theorem SearchRequest.toVec_eq (req : SearchRequest) :
    req.toVec deps = fieldsText quoted (req.fields deps) := by
  unfold SearchRequest.toVec fieldsText SearchRequest.fields omitAt
  split_ifs <;> rfl

theorem SubscribeRequest.toVec_eq (req : SubscribeRequest) :
    req.toVec deps = fieldsText quoted (req.fields deps) := rfl

theorem LintRequest.toVec_eq (req : LintRequest) :
    req.toVec deps = fieldsText quoted (req.fields deps) := rfl

section

variable {deps} (h : WritesJson deps)

include h

theorem WritesJson.readable_encodeMap : Readable Set.univ (encodeMap deps) := by
  have hmembers : Members
      (Set.range fun kv : String × String => (deps.encodeStr kv.1, deps.encodeStr kv.2)) := by
    refine ⟨?_, ?_, ?_⟩
    · rintro _ ⟨kv, rfl⟩ _ ⟨kv', rfl⟩ s t heq
      dsimp only
      rw [(h.selfDelimiting kv.1 (Set.mem_univ _) kv'.1 (Set.mem_univ _) heq).1]
    · rintro _ ⟨kv, rfl⟩
      exact h.start kv.1
    · rintro _ ⟨kv, rfl⟩ _ ⟨kv', rfl⟩ - s t - - heq
      dsimp only
      rw [(h.selfDelimiting kv.2 (Set.mem_univ _) kv'.2 (Set.mem_univ _) heq).1]
  have hinj : Function.Injective fun kv : String × String =>
      (deps.encodeStr kv.1, deps.encodeStr kv.2) := by
    intro kv kv' heq
    obtain ⟨hkey, hvalue⟩ := Prod.mk.inj heq
    have hstr := h.readable_encodeStr
    exact Prod.ext (hstr.inj (Set.mem_univ _) (Set.mem_univ _) hkey)
      (hstr.inj (Set.mem_univ _) (Set.mem_univ _) hvalue)
  have hrange : ∀ (md : HashMap), ∀ m ∈ md.entries.map fun kv =>
      (deps.encodeStr kv.1, deps.encodeStr kv.2), m ∈ Set.range fun kv : String × String =>
        (deps.encodeStr kv.1, deps.encodeStr kv.2) := by
    intro md m hm
    obtain ⟨kv, -, rfl⟩ := List.mem_map.1 hm
    exact ⟨kv, rfl⟩
  refine ⟨?_, fun md _ => start_object _⟩
  intro md _ md' _ s t _ _ heq
  have hentries := (selfDelimiting_object hmembers _ (hrange md) _ (hrange md') heq).1
  have hsame := hinj.list_map hentries
  cases md
  cases md'
  rw [HashMap.mk.injEq]
  exact hsame

theorem WritesJson.readable_valueTexts_of_ne {name : String} (hne : name ≠ "items") :
    Readable (valueTexts deps name) id := by
  unfold valueTexts
  split_ifs
  · exact (readable_arrayText h.readable_encodeF32).image
  · exact Set.image_univ ▸ h.readable_encodeMap.image
  · refine ⟨?_, ?_⟩
    · rintro _ rfl _ rfl s t - - -
      rfl
    · rintro _ rfl
      exact ⟨quote, _, rfl, by decide⟩
  · exact Set.image_univ ▸ readable_encodeNat.image
  · exact Set.image_univ ▸ h.readable_encodeStr.image

omit h in
theorem schema_of {names : List String} (hnodup : names.Nodup)
    (hplain : ∀ name ∈ names, '"' ∉ name.toList)
    (hvalue : ∀ name ∈ names, Readable (valueTexts deps name) id) :
    Schema quoted (valueTexts deps) names where
  nodup := hnodup
  delimited name hname name' hname' _ _ heq :=
    quoted_append_inj (hplain name hname) (hplain name' hname') heq
  start name _ := ⟨quote, _, by rw [quoted, asBytes_append, asBytes_append]; rfl, by decide⟩
  value := hvalue

theorem WritesJson.readable_item :
    Readable {item : PublishItem | ∀ f ∈ item.vector, f.isFinite = true}
      (PublishItem.toVec deps) := by
  have hschema : Schema quoted (valueTexts deps) ["vector", "text"] :=
    schema_of (by decide) (by decide) fun name hname =>
      h.readable_valueTexts_of_ne (by rintro rfl; revert hname; decide)
  have hfits : ∀ item : PublishItem, (∀ f ∈ item.vector, f.isFinite = true) →
      Fits (valueTexts deps) ["vector", "text"] (item.fields deps) := by
    refine fun item hitem => ⟨rfl, ?_⟩
    simp only [PublishItem.fields, List.forall_mem_cons, omitAt_eq_some_iff, and_imp,
      List.not_mem_nil, IsEmpty.forall_iff, implies_true, and_true]
    refine ⟨?_, ?_⟩
    · rintro _ - rfl
      exact ⟨_, hitem, rfl⟩
    · rintro _ - rfl
      simp [valueTexts]
  refine ⟨?_, ?_⟩
  · intro item hitem item' hitem' s t _ _ heq
    rw [PublishItem.toVec_eq, PublishItem.toVec_eq] at heq
    have hfields := (hschema.fieldsText_inj _ (hfits item hitem) _ (hfits item' hitem') heq).1
    simp only [PublishItem.fields, List.cons.injEq, Prod.mk.injEq, true_and, and_true] at hfields
    have hvector := omitAt_inj (fun _ _ =>
      (readable_arrayText h.readable_encodeF32).inj hitem hitem') hfields.1
    have htext := omitAt_inj (fun _ _ =>
      h.readable_encodeStr.inj (Set.mem_univ _) (Set.mem_univ _)) hfields.2
    cases item
    cases item'
    rw [PublishItem.mk.injEq]
    exact ⟨hvector, htext⟩
  · intro item _
    exact start_object _

theorem WritesJson.readable_valueTexts (name : String) : Readable (valueTexts deps name) id := by
  by_cases hitems : name = "items"
  · rw [hitems]
    exact (readable_arrayText h.readable_item).image
  · exact h.readable_valueTexts_of_ne hitems

/-- Of two requests with the same text, the fields are the same. -/
theorem WritesJson.fields_inj {names : List String} (hnodup : names.Nodup)
    (hplain : ∀ name ∈ names, '"' ∉ name.toList)
    {fields fields' : List (String × Option (List UInt8))}
    (hfits : Fits (valueTexts deps) names fields) (hfits' : Fits (valueTexts deps) names fields')
    (heq : fieldsText quoted fields = fieldsText quoted fields') : fields = fields' :=
  ((schema_of hnodup hplain fun name _ => h.readable_valueTexts name).fieldsText_inj _ hfits _
    hfits' (congrArg (· ++ []) heq)).1

theorem WritesJson.encodeStr_inj {s t : String} : deps.encodeStr s = deps.encodeStr t ↔ s = t :=
  ⟨h.readable_encodeStr.inj (Set.mem_univ _) (Set.mem_univ _), congrArg _⟩

omit h in
theorem encodeNat_inj {n m : ℕ} : encodeNat n = encodeNat m ↔ n = m :=
  ⟨readable_encodeNat.inj (Set.mem_univ _) (Set.mem_univ _), congrArg _⟩

theorem LintRequest.toVec_inj {req req' : LintRequest} (heq : req.toVec deps = req'.toVec deps) :
    req = req' := by
  have hfits : ∀ req : LintRequest,
      Fits (valueTexts deps) ["query", "cursor"] (req.fields deps) :=
    fun req => ⟨rfl, by simp [LintRequest.fields, valueTexts]⟩
  have hfields := h.fields_inj (by decide) (by decide) (hfits req) (hfits req') heq
  simp only [LintRequest.fields, List.cons.injEq, Prod.mk.injEq, Option.some.injEq, true_and,
    and_true, h.encodeStr_inj, encodeNat_inj, UInt32.toNat_inj] at hfields
  cases req
  cases req'
  rw [LintRequest.mk.injEq]
  exact hfields

theorem SubscribeRequest.toVec_inj {req req' : SubscribeRequest}
    (heq : req.toVec deps = req'.toVec deps) : req = req' := by
  have hfits : ∀ req : SubscribeRequest,
      Fits (valueTexts deps) ["query", "namespace", "model", "dimensions"] (req.fields deps) :=
    fun req => ⟨rfl, by simp [SubscribeRequest.fields, valueTexts]⟩
  have hfields := h.fields_inj (by decide) (by decide) (hfits req) (hfits req') heq
  simp only [SubscribeRequest.fields, List.cons.injEq, Prod.mk.injEq, Option.some.injEq, true_and,
    and_true, h.encodeStr_inj, encodeNat_inj, UInt16.toNat_inj] at hfields
  cases req
  cases req'
  rw [SubscribeRequest.mk.injEq]
  exact hfields

theorem SearchRequest.toVec_inj {req req' : SearchRequest}
    (heq : req.toVec deps = req'.toVec deps) : req = req' := by
  have hfits : ∀ req : SearchRequest,
      Fits (valueTexts deps) ["query", "namespace", "model", "limit", "dimensions"]
        (req.fields deps) :=
    fun req => ⟨rfl, by simp [SearchRequest.fields, valueTexts, omitAt_eq_some_iff]⟩
  rw [SearchRequest.toVec_eq, SearchRequest.toVec_eq] at heq
  have hfields := h.fields_inj (by decide) (by decide) (hfits req) (hfits req') heq
  simp only [SearchRequest.fields, List.cons.injEq, Prod.mk.injEq, Option.some.injEq, true_and,
    and_true, h.encodeStr_inj, encodeNat_inj, UInt16.toNat_inj] at hfields
  obtain ⟨hquery, hname, hmodel, hlimit, hdimensions⟩ := hfields
  have hlimit := omitAt_inj (fun _ _ heq => UInt32.toNat_inj.1 (encodeNat_inj.1 heq)) hlimit
  cases req
  cases req'
  rw [SearchRequest.mk.injEq]
  exact ⟨hquery, hname, hmodel, hlimit, hdimensions⟩

theorem PublishRequest.toVec_inj {req req' : PublishRequest}
    (hfinite : ∀ item ∈ req.items, ∀ f ∈ item.vector, f.isFinite = true)
    (hfinite' : ∀ item ∈ req'.items, ∀ f ∈ item.vector, f.isFinite = true)
    (heq : req.toVec deps = req'.toVec deps) : req = req' := by
  have hfits : ∀ req : PublishRequest,
      (∀ item ∈ req.items, ∀ f ∈ item.vector, f.isFinite = true) →
      Fits (valueTexts deps) ["items", "namespace", "model", "dimensions", "metadata",
        "idempotency_key", "ack"] (req.fields deps) := by
    refine fun req hreq => ⟨rfl, ?_⟩
    rw [PublishRequest.fields, List.forall_mem_cons]
    refine ⟨?_, by simp [valueTexts, omitAt_eq_some_iff]⟩
    rintro _ ⟨⟩
    exact ⟨_, hreq, rfl⟩
  rw [PublishRequest.toVec_eq, PublishRequest.toVec_eq] at heq
  have hfields := h.fields_inj (by decide) (by decide) (hfits req hfinite) (hfits req' hfinite') heq
  simp only [PublishRequest.fields, List.cons.injEq, Prod.mk.injEq, Option.some.injEq, true_and,
    and_true, h.encodeStr_inj, encodeNat_inj, UInt16.toNat_inj] at hfields
  obtain ⟨hitems, hname, hmodel, hdimensions, hmetadata, hkey, hack⟩ := hfields
  have hitems := (readable_arrayText h.readable_item).inj hfinite hfinite' hitems
  have hmetadata := omitAt_inj (fun _ _ =>
    h.readable_encodeMap.inj (Set.mem_univ _) (Set.mem_univ _)) hmetadata
  have hkey := Option.map_injective (fun _ _ => h.encodeStr_inj.1) hkey
  have hack : req.ack = req'.ack := by
    apply omitAt_inj _ hack
    intro hne hne' _
    cases hreq : req.ack with
    | stored => exact absurd hreq hne
    | durable =>
        cases hreq' : req'.ack with
        | stored => exact absurd hreq' hne'
        | durable => rfl
  cases req
  cases req'
  rw [PublishRequest.mk.injEq]
  exact ⟨hitems, hname, hmodel, hdimensions, hmetadata, hkey, hack⟩

end

end Semantik
