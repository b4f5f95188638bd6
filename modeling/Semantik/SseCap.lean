import Semantik.SseChunking
import Semantik.SseFrames

/-!
# What the frame cap is measured on

The running size is reset when a frame is emitted, but not by the blank line after a frame that
leaves event and data empty. The cap therefore applies to bursts: a run of such silent frames
together with the frame after it.
-/

namespace Semantik

instance (frame : List (List UInt8)) : Decidable (Silent frame) :=
  inferInstanceAs (Decidable (_ ∧ _))

def totalSize (frames : List (List (List UInt8))) : ℕ := (frames.map frameSize).sum

/-- Some silent frames directly followed by a frame exceed the cap together. -/
def OversizedBurst (frames : List (List (List UInt8))) : Prop :=
  ∃ run frame, run ++ [frame] <:+: frames ∧ (∀ silent ∈ run, Silent silent) ∧
    maxSseFrameBytes < totalSize run + frameSize frame

/-- What the scanner checks: `carried` is the size left over from silent frames. -/
def Overflows : ℕ → List (List (List UInt8)) → Prop
  | _, [] => False
  | carried, frame :: frames => maxSseFrameBytes < carried + frameSize frame ∨
      Overflows (if Silent frame then carried + frameSize frame else 0) frames

instance decidableOverflows : (carried : ℕ) → (frames : List (List (List UInt8))) →
    Decidable (Overflows carried frames)
  | _, [] => inferInstanceAs (Decidable False)
  | carried, frame :: frames =>
    have := decidableOverflows (if Silent frame then carried + frameSize frame else 0) frames
    inferInstanceAs (Decidable (_ ∨ _))

theorem Overflows.mono {carried carried' : ℕ} {frames : List (List (List UInt8))}
    (h : Overflows carried frames) (hle : carried ≤ carried') : Overflows carried' frames := by
  induction frames generalizing carried carried' with
  | nil => exact h
  | cons frame frames ih =>
      rcases h with h | h
      · exact Or.inl (by omega)
      · apply Or.inr
        apply ih h
        split_ifs
        · omega
        · exact le_rfl

theorem overflows_of_run {run frames : List (List (List UInt8))} {frame : List (List UInt8)}
    {carried : ℕ} (hsilent : ∀ silent ∈ run, Silent silent)
    (h : maxSseFrameBytes < carried + totalSize run + frameSize frame) :
    Overflows carried (run ++ frame :: frames) := by
  induction run generalizing carried with
  | nil => exact Or.inl (by simpa [totalSize] using h)
  | cons silent run ih =>
      obtain ⟨hs, hrun⟩ := List.forall_mem_cons.mp hsilent
      apply Or.inr
      rw [if_pos hs]
      apply ih hrun
      simp only [totalSize, List.map_cons, List.sum_cons] at h ⊢
      omega

theorem overflows_of_oversizedBurst {frames : List (List (List UInt8))} (h : OversizedBurst frames) :
    Overflows 0 frames := by
  obtain ⟨run, frame, ⟨pre, post, rfl⟩, hsilent, hbig⟩ := h
  induction pre with
  | nil =>
      have hbig' : maxSseFrameBytes < 0 + totalSize run + frameSize frame := by omega
      simpa using overflows_of_run hsilent hbig'
  | cons first pre ih =>
      simp only [List.cons_append]
      exact Or.inr (ih.mono (Nat.zero_le _))

theorem oversizedBurst_cons {frame : List (List UInt8)} {frames : List (List (List UInt8))}
    (h : OversizedBurst frames) : OversizedBurst (frame :: frames) := by
  obtain ⟨run, frame', hinfix, hsilent, hbig⟩ := h
  exact ⟨run, frame', hinfix.trans (List.infix_cons (List.infix_refl _)), hsilent, hbig⟩

theorem burst_of_overflows {carried : ℕ} {frames : List (List (List UInt8))}
    (h : Overflows carried frames) :
    (∃ run frame, run ++ [frame] <+: frames ∧ (∀ silent ∈ run, Silent silent) ∧
      maxSseFrameBytes < carried + totalSize run + frameSize frame) ∨ OversizedBurst frames := by
  induction frames generalizing carried with
  | nil => exact h.elim
  | cons frame frames ih =>
      rcases h with h | h
      · exact Or.inl ⟨[], frame, ⟨frames, rfl⟩, by simp, by simpa [totalSize] using h⟩
      · rcases ih h with ⟨run, frame', ⟨post, hpost⟩, hsilent, hbig⟩ | hburst
        · by_cases hs : Silent frame
          · rw [if_pos hs] at hbig
            refine Or.inl ⟨frame :: run, frame', ⟨post, by rw [← hpost]; rfl⟩,
              List.forall_mem_cons.mpr ⟨hs, hsilent⟩, ?_⟩
            simp only [totalSize, List.map_cons, List.sum_cons] at hbig ⊢
            omega
          · rw [if_neg hs, Nat.zero_add] at hbig
            have hinfix : run ++ [frame'] <:+: frames := List.IsPrefix.isInfix ⟨post, hpost⟩
            exact Or.inr (oversizedBurst_cons ⟨run, frame', hinfix, hsilent, hbig⟩)
        · exact Or.inr (oversizedBurst_cons hburst)

theorem overflows_iff_oversizedBurst (frames : List (List (List UInt8))) :
    Overflows 0 frames ↔ OversizedBurst frames := by
  refine ⟨fun h => ?_, overflows_of_oversizedBurst⟩
  rcases burst_of_overflows h with ⟨run, frame, hpre, hsilent, hbig⟩ | hburst
  · exact ⟨run, frame, hpre.isInfix, hsilent, by rwa [Nat.zero_add] at hbig⟩
  · exact hburst

instance (frames : List (List (List UInt8))) : Decidable (OversizedBurst frames) :=
  decidable_of_iff _ (overflows_iff_oversizedBurst frames)

namespace Scanner

/-- From the start of a frame, the lines trip the cap exactly when their frames overflow. -/
theorem stop_iff_overflows {s : Scanner} (hidle : s.Idle) (hs : s.curSize ≤ maxSseFrameBytes)
    (lines : List (List UInt8)) :
    (consumeLines s lines).stop ≠ none ↔ Overflows s.curSize (frameGroups lines) := by
  induction lines using frame_induction generalizing s with
  | last frame hframe =>
      rw [frameGroups_nonBlank hframe]
      by_cases hfit : s.curSize + frameSize frame ≤ maxSseFrameBytes
      · rw [consumeLines_group hframe hfit]
        simp [Overflows, hfit]
      · rw [consumeLines_group_tooLarge hframe hs (not_le.mp hfit)]
        simp [Overflows, not_le.mp hfit]
  | blank frame rest hframe ih =>
      rw [frameGroups_blank hframe, Overflows]
      by_cases hfit : s.curSize + frameSize frame ≤ maxSseFrameBytes
      · have hgroup := consumeLines_group hframe hfit
        have hsilent := (idle_withFrame_iff hidle frame (s.curSize + frameSize frame)).symm
        rw [consumeLines_append (by rw [hgroup]), hgroup]
        by_cases hsil : Silent frame
        · rw [consumeLines_cons_ok (consumeLine_blank_idle (hsilent.mp hsil)), if_pos hsil,
            ih (hsilent.mp hsil) hfit]
          simp [hfit]
        · rw [consumeLines_cons_ok (consumeLine_blank (mt hsilent.mpr hsil)), if_neg hsil,
            ih ⟨rfl, rfl⟩ (Nat.zero_le _)]
          simp [hfit, takeFrame]
      · have hbig : maxSseFrameBytes < s.curSize + frameSize frame := not_le.mp hfit
        have hstop := consumeLines_group_tooLarge hframe hs hbig
        rw [consumeLines_append_of_stop hstop, hstop]
        simp [hbig]

theorem scan_error_iff (chunks : List (List UInt8)) :
    scan chunks = .error (.frameTooLarge maxSseFrameBytes) ↔
      OversizedBurst (frameGroups (allLines chunks.flatten)) := by
  rw [← overflows_iff_oversizedBurst]
  have hnew : new.curSize = 0 := rfl
  rw [← hnew, ← stop_iff_overflows ⟨rfl, rfl⟩ (Nat.zero_le _), scan_eq]
  cases hstop : (consumeLines new (allLines chunks.flatten)).stop with
  | some e => simp [stop_eq_frameTooLarge hstop]
  | none => simp

/-- The cap is per frame exactly on the streams where a frame exceeds it alone, or where no silent
frames and the frame after them exceed it together. -/
theorem scan_error_iff_frame_iff (chunks : List (List UInt8)) :
    (scan chunks = .error (.frameTooLarge maxSseFrameBytes) ↔
        ∃ frame ∈ frameGroups (allLines chunks.flatten), maxSseFrameBytes < frameSize frame) ↔
      (∃ frame ∈ frameGroups (allLines chunks.flatten), maxSseFrameBytes < frameSize frame) ∨
      ∀ run frame, run ++ [frame] <:+: frameGroups (allLines chunks.flatten) →
        (∀ silent ∈ run, Silent silent) → totalSize run + frameSize frame ≤ maxSseFrameBytes := by
  rw [scan_error_iff]
  generalize frameGroups (allLines chunks.flatten) = frames
  have hburst : (∃ frame ∈ frames, maxSseFrameBytes < frameSize frame) → OversizedBurst frames := by
    intro h
    obtain ⟨frame, hmem, hbig⟩ := h
    obtain ⟨pre, post, rfl⟩ := List.append_of_mem hmem
    exact ⟨[], frame, ⟨pre, post, by simp⟩, by simp, by simpa [totalSize] using hbig⟩
  have hnone : (¬ OversizedBurst frames) ↔ ∀ run frame, run ++ [frame] <:+: frames →
      (∀ silent ∈ run, Silent silent) → totalSize run + frameSize frame ≤ maxSseFrameBytes := by
    simp only [OversizedBurst, not_exists, not_and, not_lt]
  rw [← hnone]
  constructor
  · intro h
    by_cases hover : OversizedBurst frames
    · exact Or.inl (h.mp hover)
    · exact Or.inr hover
  · intro h
    cases h with
    | inl hframe => exact ⟨fun _ => hframe, hburst⟩
    | inr hnot => exact ⟨fun h => (hnot h).elim, hburst⟩

def idLine (n : ℕ) : List UInt8 := asBytes "id" ++ colon :: List.replicate n 0x31

theorem idLine_ne_nil (n : ℕ) : idLine n ≠ [] := by simp [idLine]

theorem idLine_size (n : ℕ) : frameSize [idLine n] = n + 3 := by
  have hid : asBytes "id" = [0x69, 0x64] := by decide
  simp [frameSize, countedBytes, idLine, hid, colon]

theorem idLine_silent (n : ℕ) : Silent [idLine n] := by
  have hid : asBytes "id" = [0x69, 0x64] := by decide
  have hfield : (splitField (idLine n)).1 = asBytes "id" := by
    simp [splitField, idLine, hid, List.findIdx?_cons, colon]
  have he : asBytes "id" ≠ asBytes "event" := by decide
  have hd : asBytes "id" ≠ asBytes "data" := by decide
  simp [Silent, fieldValues, hfield, he, hd]

theorem allLines_idLine (n : ℕ) (stream : List UInt8) :
    allLines (idLine n ++ lf :: lf :: stream) = idLine n :: [] :: allLines stream := by
  have hid : asBytes "id" = [0x69, 0x64] := by decide
  have hlf : lf ∉ idLine n := by simp [idLine, hid, List.mem_replicate, lf, colon]
  have hcr : cr ∉ idLine n := by simp [idLine, hid, List.mem_replicate, cr, colon]
  simp only [allLines_eq, openLines, LineSplit.splitOpen_line hlf hcr, LineSplit.splitOpen_lf,
    List.cons_append]

/-- Two keep-alive frames of 40003 bytes, each within the cap: the second is refused. -/
theorem keepAlive_refused :
    ¬ (scan [idLine 40000 ++ lf :: lf :: (idLine 40000 ++ lf :: lf :: [])] =
          .error (.frameTooLarge maxSseFrameBytes) ↔
        ∃ frame ∈ frameGroups (allLines
            [idLine 40000 ++ lf :: lf :: (idLine 40000 ++ lf :: lf :: [])].flatten),
          maxSseFrameBytes < frameSize frame) := by
  have hlines : allLines [idLine 40000 ++ lf :: lf :: (idLine 40000 ++ lf :: lf :: [])].flatten =
      [idLine 40000] ++ [] :: ([idLine 40000] ++ [] :: []) := by
    rw [List.flatten_singleton, allLines_idLine, allLines_idLine]
    rfl
  have hframe : NonBlank [idLine 40000] := by
    intro line hline
    rw [List.mem_singleton.mp hline]
    exact idLine_ne_nil 40000
  have hgroups : frameGroups ([idLine 40000] ++ [] :: ([idLine 40000] ++ [] :: [])) =
      [[idLine 40000], [idLine 40000], []] := by
    rw [frameGroups_blank hframe, frameGroups_blank hframe]
    rfl
  have hsize := idLine_size 40000
  have hsilent := idLine_silent 40000
  rw [scan_error_iff, hlines, hgroups]
  generalize idLine 40000 = line at hsize hsilent
  intro h
  have hburst : OversizedBurst [[line], [line], []] := by
    refine ⟨[[line]], [line], ⟨[], [[]], rfl⟩, List.forall_mem_singleton.mpr hsilent, ?_⟩
    rw [totalSize, List.map_singleton, List.sum_singleton, hsize]
    decide
  obtain ⟨frame, hmem, hbig⟩ := h.mp hburst
  simp only [List.mem_cons, List.not_mem_nil, or_false, or_self_left] at hmem
  rcases hmem with rfl | rfl
  · rw [hsize] at hbig
    exact absurd hbig (by decide)
  · exact absurd hbig (by decide)

end Scanner

end Semantik
