import Semantik.Requests

/-!
# What publish preflight accepts

The documented conditions on a publish request, in terms of its characters and sizes, against the
checks of `PublishRequest.validate`, which look at bytes and stop at the first failure.
-/

namespace Semantik

def IsControl (c : Char) : Prop := c.toNat ≤ 0x1F ∨ c.toNat = 0x7F

structure EntryDocumented (kv : String × String) : Prop where
  key_size : 1 ≤ kv.1.utf8ByteSize ∧ kv.1.utf8ByteSize ≤ 64
  value_size : kv.2.utf8ByteSize ≤ 256
  key_plain : ∀ c ∈ kv.1.toList, ¬ IsControl c
  value_plain : ∀ c ∈ kv.2.toList, ¬ IsControl c

/-- A publish item as documented, for this many dimensions. -/
structure ItemDocumented (item : PublishItem) (dimensions : ℕ) : Prop where
  nonempty : item.text ≠ "" ∨ item.vector ≠ []
  text_size : item.text.utf8ByteSize ≤ 32768
  vector_length : item.vector ≠ [] → item.vector.length = dimensions
  vector_finite : ∀ f ∈ item.vector, f.isFinite = true

/-- A publish request as documented. -/
structure PublishRequest.Documented (req : PublishRequest) : Prop where
  nameSpace : req.nameSpace ≠ ""
  model : req.model ≠ ""
  dimensions : 1 ≤ req.dimensions.toNat ∧ req.dimensions.toNat ≤ 4096
  item : ∃ item, req.items = [item] ∧ ItemDocumented item req.dimensions.toNat
  entries_length : req.metadata.entries.length ≤ 16
  entries : ∀ kv ∈ req.metadata.entries, EntryDocumented kv
  entries_size :
    (req.metadata.entries.map fun kv => kv.1.utf8ByteSize + kv.2.utf8ByteSize).sum ≤ 4096
  idempotencyKey : ∀ k, req.idempotencyKey = some k → k.utf8ByteSize ≤ 256

/-- Scanning the bytes finds exactly the control characters. -/
theorem hasControlChar_eq_false_iff (s : String) :
    hasControlChar s = false ↔ ∀ c ∈ s.toList, ¬ IsControl c := by
  have hbyte : hasControlChar s = true ↔ ∃ b ∈ asBytes s, b.toNat ≤ 0x1F ∨ b.toNat = 0x7F := by
    rw [hasControlChar, List.any_eq_true]
    apply exists_congr
    intro b
    apply and_congr_right
    intro _
    rw [Bool.or_eq_true, decide_eq_true_eq, beq_iff_eq, UInt8.lt_iff_toNat_lt, ← UInt8.toNat_inj]
    exact or_congr Nat.lt_succ_iff Iff.rfl
  have hascii : ∀ n : ℕ, n ≤ 0x1F ∨ n = 0x7F → n < 0x80 := by
    intro n hn
    omega
  have hchar : hasControlChar s = true ↔ ∃ c ∈ s.toList, IsControl c := by
    rw [hbyte, asBytes_eq]
    exact Utf8.exists_mem_encode_iff hascii
  rw [← Bool.not_eq_true, hchar]
  push Not
  rfl

theorem entryFits_iff (kv : String × String) : EntryFits kv ↔ EntryDocumented kv := by
  have hkey : kv.1 ≠ "" ↔ 1 ≤ kv.1.utf8ByteSize := by
    rw [Nat.one_le_iff_ne_zero, Ne, Ne, String.utf8ByteSize_eq_zero_iff]
  constructor
  · rintro ⟨hne, hle, hvalue, hplain, hplain'⟩
    exact ⟨⟨hkey.1 hne, hle⟩, hvalue, (hasControlChar_eq_false_iff _).1 hplain,
      (hasControlChar_eq_false_iff _).1 hplain'⟩
  · rintro ⟨⟨hone, hle⟩, hvalue, hplain, hplain'⟩
    exact ⟨hkey.2 hone, hle, hvalue, (hasControlChar_eq_false_iff _).2 hplain,
      (hasControlChar_eq_false_iff _).2 hplain'⟩

/-- The two checks of an item accept the documented items. -/
theorem itemDocumented_iff (item : PublishItem) {dimensions : UInt16}
    (hdim : dimensions.toNat ≤ maxVectorDim) :
    validatePublishItem item.text item.vector = .ok () ∧
        validateVectorMatchesDimensions item.vector dimensions = .ok () ↔
      ItemDocumented item dimensions.toNat := by
  rw [validatePublishItem_eq_ok_iff, validateVectorMatchesDimensions_eq_ok_iff]
  constructor
  · rintro ⟨⟨hne, htext, -, hfinite⟩, hlen⟩
    exact ⟨hne, htext, hlen, hfinite⟩
  · rintro ⟨hne, htext, hlen, hfinite⟩
    refine ⟨⟨hne, htext, ?_, hfinite⟩, hlen⟩
    by_cases hnil : item.vector = []
    · rw [hnil]
      exact Nat.zero_le _
    · rw [hlen hnil]
      exact hdim

theorem PublishRequest.validate_eq_ok_iff_documented (printable : Char → Bool)
    (req : PublishRequest) : req.validate printable = .ok () ↔ req.Documented := by
  rw [validate_eq_ok_iff]
  have hdim : req.dimensions ≠ 0 ↔ 1 ≤ req.dimensions.toNat := by
    rw [Nat.one_le_iff_ne_zero, Ne, Ne, ← UInt16.toNat_inj]
    rfl
  constructor
  · rintro ⟨item, hitems, htarget, hitem, hvector, hmd, hkey⟩
    obtain ⟨hns, hmodel, hpos, hmax⟩ := validateTarget_eq_ok_iff.1 htarget
    obtain ⟨hlen, hentries, hsize⟩ := validateMetadata_eq_ok_iff.1 hmd
    exact ⟨hns, hmodel, ⟨hdim.1 hpos, hmax⟩,
      ⟨item, hitems, (itemDocumented_iff item hmax).1 ⟨hitem, hvector⟩⟩, hlen,
      fun kv hkv => (entryFits_iff kv).1 (hentries kv hkv), hsize, hkey⟩
  · rintro ⟨hns, hmodel, ⟨hone, hmax⟩, ⟨item, hitems, hitem⟩, hlen, hentries, hsize, hkey⟩
    obtain ⟨hitem, hvector⟩ := (itemDocumented_iff item hmax).2 hitem
    exact ⟨item, hitems, validateTarget_eq_ok_iff.2 ⟨hns, hmodel, hdim.2 hone, hmax⟩, hitem, hvector,
      validateMetadata_eq_ok_iff.2 ⟨hlen, fun kv hkv => (entryFits_iff kv).2 (hentries kv hkv), hsize⟩,
      hkey⟩

/-- The order of the metadata entries does not matter. -/
theorem PublishRequest.documented_of_perm {req : PublishRequest} {md : HashMap}
    (horder : md.entries.Perm req.metadata.entries) :
    { req with metadata := md }.Documented ↔ req.Documented := by
  have hmem : ∀ kv, kv ∈ md.entries ↔ kv ∈ req.metadata.entries := fun kv => horder.mem_iff
  have hsum : (md.entries.map fun kv => kv.1.utf8ByteSize + kv.2.utf8ByteSize).sum =
      (req.metadata.entries.map fun kv => kv.1.utf8ByteSize + kv.2.utf8ByteSize).sum :=
    (horder.map _).sum_nat
  constructor
  · intro h
    exact ⟨h.nameSpace, h.model, h.dimensions, h.item, horder.length_eq ▸ h.entries_length,
      fun kv hkv => h.entries kv ((hmem kv).2 hkv), hsum ▸ h.entries_size, h.idempotencyKey⟩
  · intro h
    exact ⟨h.nameSpace, h.model, h.dimensions, h.item, horder.length_eq.symm ▸ h.entries_length,
      fun kv hkv => h.entries kv ((hmem kv).1 hkv), hsum.symm ▸ h.entries_size, h.idempotencyKey⟩

/-- Whatever order the metadata is iterated in, validation accepts the documented requests and
rejects the others with an invalid-request error of status zero. -/
theorem PublishRequest.validate_documented (printable : Char → Bool) (req : PublishRequest)
    (md : HashMap) (horder : md.entries.Perm req.metadata.entries) :
    ({ req with metadata := md }.validate printable = .ok () ↔ req.Documented) ∧
      ∀ err, { req with metadata := md }.validate printable = .error err →
        ∃ message, err = .api .invalidRequest message none none 0 := by
  constructor
  · rw [validate_eq_ok_iff_documented, documented_of_perm horder]
  · intro err h
    exact rejectsOnly_validate printable _ err h

def PublishRequest.sample : PublishRequest where
  items := [{ text := "\x07" }]
  nameSpace := "n"
  model := "m"
  dimensions := 3
  metadata := ⟨[("a", "1"), ("b", "é")], by decide⟩

theorem PublishRequest.validate_documented_sample :
    ({ sample with metadata := ⟨[("b", "é"), ("a", "1")], by decide⟩ }.validate (fun _ => true) =
        .ok () ↔ sample.Documented) ∧
      ∀ err, { sample with metadata := ⟨[("b", "é"), ("a", "1")], by decide⟩ }.validate
          (fun _ => true) = .error err →
        ∃ message, err = .api .invalidRequest message none none 0 :=
  validate_documented (fun _ => true) sample ⟨[("b", "é"), ("a", "1")], by decide⟩
    (List.Perm.swap _ _ _)

end Semantik
