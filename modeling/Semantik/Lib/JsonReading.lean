import Mathlib.Data.List.Nodup
import Mathlib.Data.Set.Image
import Semantik.Lib.JsonText

/-!
# Reading JSON text back

What stands after a value is a comma or a closing bracket. Values whose texts can be told apart by
this give arrays and objects whose text determines their parts. A string is read up to the quote,
which no escaped character begins with.
-/

namespace JsonText

def closeBracket : UInt8 := 0x5D

def closeBrace : UInt8 := 0x7D

def quote : UInt8 := 0x22

def IsEnd (b : UInt8) : Prop := b = comma ∨ b = closeBracket ∨ b = closeBrace

instance : DecidablePred IsEnd := fun _ => inferInstanceAs (Decidable (_ ∨ _ ∨ _))

def Ends (rest : List UInt8) : Prop := ∀ b ∈ rest.head?, IsEnd b

variable {α β : Type*}

/-- The texts of these values can be told apart by what ends them, and do not start with an end. -/
structure Readable (S : Set α) (text : α → List UInt8) : Prop where
  unique : ∀ v ∈ S, ∀ w ∈ S, ∀ {s t}, Ends s → Ends t → text v ++ s = text w ++ t → v = w
  start : ∀ v ∈ S, ∃ b rest, text v = b :: rest ∧ ¬ IsEnd b

def SelfDelimiting (S : Set α) (text : α → List UInt8) : Prop :=
  ∀ v ∈ S, ∀ w ∈ S, ∀ {s t}, text v ++ s = text w ++ t → v = w ∧ s = t

theorem ends_nil : Ends [] := by simp [Ends]

theorem ends_cons {b : UInt8} (h : IsEnd b) (rest : List UInt8) : Ends (b :: rest) := by
  intro c hc
  rwa [← Option.some.inj hc]

theorem Readable.inj {S : Set α} {text : α → List UInt8} (h : Readable S text) {v w : α}
    (hv : v ∈ S) (hw : w ∈ S) (heq : text v = text w) : v = w :=
  h.unique v hv w hw ends_nil ends_nil (congrArg (· ++ []) heq)

theorem Readable.image {S : Set α} {text : α → List UInt8} (h : Readable S text) :
    Readable (Set.image text S) id where
  unique := by
    rintro _ ⟨v, hv, rfl⟩ _ ⟨w, hw, rfl⟩ s t hs ht heq
    rw [h.unique v hv w hw hs ht heq]
  start := by
    rintro _ ⟨v, hv, rfl⟩
    exact h.start v hv

theorem SelfDelimiting.readable {S : Set α} {text : α → List UInt8} (h : SelfDelimiting S text)
    (hstart : ∀ v ∈ S, ∃ b rest, text v = b :: rest ∧ ¬ IsEnd b) : Readable S text where
  unique v hv w hw _ _ _ _ heq := (h v hv w hw heq).1
  start := hstart

/-- Two texts without stops are read alike up to the first stop. -/
theorem append_inj_of_plain {P : β → Prop} {v w s t : List β} (hv : ∀ b ∈ v, ¬ P b)
    (hw : ∀ b ∈ w, ¬ P b) (hs : ∀ b ∈ s.head?, P b) (ht : ∀ b ∈ t.head?, P b)
    (h : v ++ s = w ++ t) : v = w := by
  induction v generalizing w with
  | nil =>
      cases w with
      | nil => rfl
      | cons b w =>
          rw [List.nil_append] at h
          exact absurd (hs b (by simp [h])) (hw b List.mem_cons_self)
  | cons a v ih =>
      cases w with
      | nil =>
          rw [List.nil_append] at h
          exact absurd (ht a (by simp [← h])) (hv a List.mem_cons_self)
      | cons b w =>
          obtain ⟨rfl, hrest⟩ := List.cons_eq_cons.1 h
          rw [ih (fun c hc => hv c (List.mem_cons_of_mem _ hc))
            (fun c hc => hw c (List.mem_cons_of_mem _ hc)) hrest]

/-- Numbers and other texts without ends. -/
theorem readable_of_plain {S : Set α} {text : α → List UInt8}
    (hinj : ∀ v ∈ S, ∀ w ∈ S, text v = text w → v = w)
    (h : ∀ v ∈ S, text v ≠ [] ∧ ∀ b ∈ text v, ¬ IsEnd b) : Readable S text where
  unique v hv w hw _ _ hs ht heq :=
    hinj v hv w hw (append_inj_of_plain (h v hv).2 (h w hw).2 hs ht heq)
  start v hv := by
    obtain ⟨b, rest, htext⟩ := List.exists_cons_of_ne_nil (h v hv).1
    exact ⟨b, rest, htext, (h v hv).2 b (htext ▸ List.mem_cons_self)⟩

def stringText (escape : α → List UInt8) (cs : List α) : List UInt8 :=
  quote :: cs.flatMap escape ++ [quote]

/-- Escaped characters tell where they end, and none begins with a quote. -/
structure Escapes (escape : α → List UInt8) : Prop where
  unique : SelfDelimiting Set.univ escape
  start : ∀ c, ∃ b rest, escape c = b :: rest ∧ b ≠ quote

theorem flatMap_append_quote_inj {escape : α → List UInt8} (h : Escapes escape) {cs ds : List α}
    {s t : List UInt8}
    (heq : cs.flatMap escape ++ quote :: s = ds.flatMap escape ++ quote :: t) :
    cs = ds ∧ s = t := by
  have hchar : ∀ {c : α} {rest after : List UInt8}, escape c ++ rest ≠ quote :: after := by
    intro c rest after hc
    obtain ⟨b, rest', htext, hb⟩ := h.start c
    rw [htext] at hc
    exact hb (List.cons_eq_cons.1 hc).1
  induction cs generalizing ds with
  | nil =>
      cases ds with
      | nil => exact ⟨rfl, (List.cons_eq_cons.1 heq).2⟩
      | cons d ds =>
          rw [List.flatMap_cons, List.append_assoc] at heq
          exact absurd heq.symm hchar
  | cons c cs ih =>
      cases ds with
      | nil =>
          rw [List.flatMap_cons, List.append_assoc] at heq
          exact absurd heq hchar
      | cons d ds =>
          rw [List.flatMap_cons, List.flatMap_cons, List.append_assoc, List.append_assoc] at heq
          obtain ⟨rfl, hrest⟩ := h.unique c (Set.mem_univ c) d (Set.mem_univ d) heq
          obtain ⟨rfl, hst⟩ := ih hrest
          exact ⟨rfl, hst⟩

theorem selfDelimiting_stringText {escape : α → List UInt8} (h : Escapes escape) :
    SelfDelimiting Set.univ (stringText escape) := by
  intro cs _ ds _ s t heq
  simp only [stringText, List.cons_append, List.append_assoc, List.cons.injEq, true_and,
    List.nil_append] at heq
  exact flatMap_append_quote_inj h heq

def afterFirst (close : UInt8) (s : List UInt8) : List (List UInt8) → List UInt8
  | [] => close :: s
  | part :: parts => comma :: (commaSeparated (part :: parts) ++ close :: s)

theorem commaSeparated_cons_append (close : UInt8) (s part : List UInt8)
    (parts : List (List UInt8)) : commaSeparated (part :: parts) ++ close :: s =
      part ++ afterFirst close s parts := by
  cases parts with
  | nil => rfl
  | cons part' parts => simp [commaSeparated, afterFirst]

theorem ends_afterFirst {close : UInt8} (h : IsEnd close) (s : List UInt8)
    (parts : List (List UInt8)) : Ends (afterFirst close s parts) := by
  cases parts with
  | nil => exact ends_cons h s
  | cons part parts => exact ends_cons (.inl rfl) _

theorem commaSeparated_inj {S : Set α} {text : α → List UInt8} (h : Readable S text)
    {close : UInt8} (hclose : IsEnd close) (hcomma : close ≠ comma) {vs ws : List α}
    (hv : ∀ v ∈ vs, v ∈ S) (hw : ∀ w ∈ ws, w ∈ S) {s t : List UInt8}
    (heq : commaSeparated (vs.map text) ++ close :: s =
      commaSeparated (ws.map text) ++ close :: t) : vs = ws ∧ s = t := by
  -- a part that is compared with the closing bracket would start with it
  have hpart : ∀ {v : α} {rest after : List UInt8}, v ∈ S → text v ++ rest ≠ close :: after := by
    intro v rest after hmem hv
    obtain ⟨b, rest', htext, hb⟩ := h.start v hmem
    rw [htext] at hv
    obtain ⟨rfl, -⟩ := List.cons_eq_cons.1 hv
    exact hb hclose
  induction vs generalizing ws with
  | nil =>
      cases ws with
      | nil => exact ⟨rfl, (List.cons_eq_cons.1 heq).2⟩
      | cons w ws =>
          rw [List.map_cons, commaSeparated_cons_append] at heq
          exact absurd heq.symm (hpart (hw w List.mem_cons_self))
  | cons v vs ih =>
      cases ws with
      | nil =>
          rw [List.map_cons, commaSeparated_cons_append] at heq
          exact absurd heq (hpart (hv v List.mem_cons_self))
      | cons w ws =>
          rw [List.map_cons, List.map_cons, commaSeparated_cons_append,
            commaSeparated_cons_append] at heq
          obtain rfl := h.unique v (hv v List.mem_cons_self) w (hw w List.mem_cons_self)
            (ends_afterFirst hclose _ _) (ends_afterFirst hclose _ _) heq
          have hrest := List.append_cancel_left heq
          cases vs with
          | nil =>
              cases ws with
              | nil => exact ⟨rfl, (List.cons_eq_cons.1 hrest).2⟩
              | cons w' ws => exact absurd (List.cons_eq_cons.1 hrest).1 hcomma
          | cons v' vs =>
              cases ws with
              | nil => exact absurd (List.cons_eq_cons.1 hrest).1.symm hcomma
              | cons w' ws =>
                  obtain ⟨hparts, hst⟩ := ih (fun u hu => hv u (List.mem_cons_of_mem _ hu))
                    (fun u hu => hw u (List.mem_cons_of_mem _ hu)) (List.cons_eq_cons.1 hrest).2
                  exact ⟨by rw [hparts], hst⟩

def arrayText (text : α → List UInt8) (vs : List α) : List UInt8 := array (vs.map text)

theorem selfDelimiting_arrayText {S : Set α} {text : α → List UInt8} (h : Readable S text) :
    SelfDelimiting {vs : List α | ∀ v ∈ vs, v ∈ S} (arrayText text) := by
  intro vs hv ws hw s t heq
  simp only [arrayText, array, List.cons_append, List.append_assoc, List.cons.injEq, true_and,
    List.nil_append] at heq
  exact commaSeparated_inj h (.inr (.inl rfl)) (by decide) hv hw heq

theorem readable_arrayText {S : Set α} {text : α → List UInt8} (h : Readable S text) :
    Readable {vs : List α | ∀ v ∈ vs, v ∈ S} (arrayText text) :=
  (selfDelimiting_arrayText h).readable fun _ _ => ⟨0x5B, _, rfl, by decide⟩

/-- Members of which the key tells how the value is read. -/
structure Members (M : Set (List UInt8 × List UInt8)) : Prop where
  key : ∀ m ∈ M, ∀ m' ∈ M, ∀ {s t}, m.1 ++ s = m'.1 ++ t → m.1 = m'.1
  start : ∀ m ∈ M, ∃ b rest, m.1 = b :: rest ∧ ¬ IsEnd b
  value : ∀ m ∈ M, ∀ m' ∈ M, m.1 = m'.1 → ∀ {s t}, Ends s → Ends t →
    m.2 ++ s = m'.2 ++ t → m.2 = m'.2

theorem Members.readable {M : Set (List UInt8 × List UInt8)} (h : Members M) :
    Readable M (fun m => m.1 ++ colon :: m.2) where
  unique m hm m' hm' s t hs ht heq := by
    simp only [List.append_assoc, List.cons_append] at heq
    have hkey := h.key m hm m' hm' heq
    rw [hkey] at heq
    exact Prod.ext hkey (h.value m hm m' hm' hkey hs ht
      (List.cons_eq_cons.1 (List.append_cancel_left heq)).2)
  start m hm := by
    obtain ⟨b, rest, hkey, hb⟩ := h.start m hm
    exact ⟨b, rest ++ colon :: m.2, by rw [hkey, List.cons_append], hb⟩

theorem selfDelimiting_object {M : Set (List UInt8 × List UInt8)} (h : Members M) :
    SelfDelimiting {ms | ∀ m ∈ ms, m ∈ M} object := by
  intro ms hm ms' hm' s t heq
  simp only [object, List.cons_append, List.append_assoc, List.cons.injEq, true_and,
    List.nil_append] at heq
  exact commaSeparated_inj h.readable (.inr (.inr rfl)) (by decide) hm hm' heq

theorem start_object (ms : List (List UInt8 × List UInt8)) :
    ∃ b rest, object ms = b :: rest ∧ ¬ IsEnd b := ⟨0x7B, _, rfl, by decide⟩

def present (fields : List (α × Option β)) : List (α × β) :=
  fields.filterMap fun f => f.2.map (Prod.mk f.1)

theorem mem_present {fields : List (α × Option β)} {m : α × β} :
    m ∈ present fields ↔ (m.1, some m.2) ∈ fields := by
  constructor
  · intro h
    obtain ⟨⟨k, o⟩, hmem, hm⟩ := List.mem_filterMap.1 h
    obtain ⟨v, rfl, rfl⟩ := Option.map_eq_some_iff.1 hm
    exact hmem
  · exact fun h => List.mem_filterMap.2 ⟨_, h, rfl⟩

/-- For given keys the members that are there tell which are not. -/
theorem present_inj {fields fields' : List (α × Option β)}
    (hkeys : fields.map Prod.fst = fields'.map Prod.fst) (hnodup : (fields.map Prod.fst).Nodup)
    (h : present fields = present fields') : fields = fields' := by
  induction fields generalizing fields' with
  | nil => exact (List.map_eq_nil_iff.1 hkeys.symm).symm
  | cons f fields ih =>
      obtain ⟨f', fields', rfl⟩ := List.exists_cons_of_ne_nil
        (fun hnil : fields' = [] => by simp [hnil] at hkeys)
      obtain ⟨k, o⟩ := f
      obtain ⟨k', o'⟩ := f'
      simp only [List.map_cons, List.cons.injEq] at hkeys
      obtain ⟨rfl, hrest⟩ := hkeys
      rw [List.map_cons, List.nodup_cons] at hnodup
      -- the key of the first field is not among those of the others
      have hout : ∀ {l : List (α × Option β)} {v : β}, l.map Prod.fst = fields.map Prod.fst →
          (k, v) ∉ present l := by
        intro l v hl hmem
        have hkey : k ∈ l.map Prod.fst := List.mem_map.2 ⟨_, mem_present.1 hmem, rfl⟩
        exact hnodup.1 (hl ▸ hkey)
      cases o with
      | none =>
          cases o' with
          | none => rw [ih hrest hnodup.2 h]
          | some v' =>
              have hmem : (k, v') ∈ present fields := by
                have hfirst : (k, v') ∈ present ((k, some v') :: fields') := List.mem_cons_self
                rwa [← h] at hfirst
              exact absurd hmem (hout rfl)
      | some v =>
          cases o' with
          | none =>
              have hmem : (k, v) ∈ present fields' := by
                have hfirst : (k, v) ∈ present ((k, some v) :: fields) := List.mem_cons_self
                rwa [h] at hfirst
              exact absurd hmem (hout hrest.symm)
          | some v' =>
              obtain ⟨hfirst, hlater⟩ := List.cons_eq_cons.1 h
              cases hfirst
              rw [ih hrest hnodup.2 hlater]

/-- A value that is left out at its default. -/
def omitAt [DecidableEq α] (default : α) (text : α → β) (v : α) : Option β :=
  if v = default then none else some (text v)

theorem omitAt_eq_some_iff [DecidableEq α] {default v : α} {text : α → β} {t : β} :
    omitAt default text v = some t ↔ v ≠ default ∧ text v = t := by
  unfold omitAt
  split_ifs with hv <;> simp [hv]

theorem omitAt_inj [DecidableEq α] {default : α} {text : α → β} {v w : α}
    (hinj : v ≠ default → w ≠ default → text v = text w → v = w)
    (h : omitAt default text v = omitAt default text w) : v = w := by
  unfold omitAt at h
  split_ifs at h with hv hw hw
  · rw [hv, hw]
  · exact hinj hv hw (Option.some.inj h)

section Fields

variable {ν : Type*} (key : ν → List UInt8) (V : ν → Set (List UInt8))

def fieldsText (fields : List (ν × Option (List UInt8))) : List UInt8 :=
  object (present (fields.map fun f => (key f.1, f.2)))

/-- The names of the fields of an object can be read, and so can the values of each. -/
structure Schema (names : List ν) : Prop where
  nodup : names.Nodup
  delimited : SelfDelimiting {name | name ∈ names} key
  start : ∀ name ∈ names, ∃ b rest, key name = b :: rest ∧ ¬ IsEnd b
  value : ∀ name ∈ names, Readable (V name) id

structure Fits (names : List ν) (fields : List (ν × Option (List UInt8))) : Prop where
  names : fields.map Prod.fst = names
  values : ∀ f ∈ fields, ∀ v, f.2 = some v → v ∈ V f.1

variable {key V} {names : List ν} (h : Schema key V names)

include h

theorem Schema.members : Members {m | ∃ name ∈ names, m.1 = key name ∧ m.2 ∈ V name} where
  key := by
    rintro ⟨_, _⟩ ⟨name, hname, rfl, -⟩ ⟨_, _⟩ ⟨name', hname', rfl, -⟩ s t heq
    rw [(h.delimited name hname name' hname' heq).1]
  start := by
    rintro ⟨_, _⟩ ⟨name, hname, rfl, -⟩
    exact h.start name hname
  value := by
    rintro ⟨_, v⟩ ⟨name, hname, rfl, hv⟩ ⟨_, v'⟩ ⟨name', hname', rfl, hv'⟩ hkey s t hs ht heq
    obtain ⟨rfl, -⟩ := h.delimited name hname name' hname' (congrArg (· ++ []) hkey)
    exact (h.value name hname).unique v hv v' hv' hs ht heq

/-- The text of an object determines its fields. -/
theorem Schema.fieldsText_inj : SelfDelimiting {fields | Fits V names fields} (fieldsText key) := by
  intro fields hfits fields' hfits' s t heq
  have hmem : ∀ {l : List (ν × Option (List UInt8))}, Fits V names l →
      ∀ m ∈ present (l.map fun f => (key f.1, f.2)),
        m ∈ {m | ∃ name ∈ names, m.1 = key name ∧ m.2 ∈ V name} := by
    intro l hl m hm
    obtain ⟨f, hf, hkey⟩ := List.mem_map.1 (mem_present.1 hm)
    obtain ⟨hfst, hsnd⟩ := Prod.mk.inj hkey
    exact ⟨f.1, hl.names ▸ List.mem_map_of_mem hf, hfst.symm, hl.values f hf _ hsnd⟩
  obtain ⟨hpresent, hst⟩ := selfDelimiting_object h.members _ (hmem hfits) _ (hmem hfits') heq
  refine ⟨?_, hst⟩
  have hinj : ∀ name ∈ names, ∀ name' ∈ names, key name = key name' → name = name' :=
    fun name hname name' hname' hkey =>
      (h.delimited name hname name' hname' (congrArg (· ++ []) hkey)).1
  have hkeys : ∀ {l : List (ν × Option (List UInt8))}, Fits V names l →
      (l.map fun f => (key f.1, f.2)).map Prod.fst = names.map key := by
    intro l hl
    rw [← hl.names, List.map_map, List.map_map]
    rfl
  have hfields := present_inj ((hkeys hfits).trans (hkeys hfits').symm)
    (hkeys hfits ▸ h.nodup.map_on hinj) hpresent
  have hvalues : fields.map Prod.snd = fields'.map Prod.snd := by
    have hmap := congrArg (List.map Prod.snd) hfields
    rwa [List.map_map, List.map_map] at hmap
  exact (List.zip_of_prod hfits.names hvalues).trans (List.zip_of_prod hfits'.names rfl).symm

end Fields

end JsonText
