import Semantik.SseWriting
import Semantik.SubscribeDelivery

/-!
# What the scanner reads

The event of a frame is one line, its data have no carriage return and do not start with a line
feed, and one of the two is not empty: this holds of every frame that any body yields. Such a frame
can be written out again, line by line, and it is read back as it was.
-/

namespace Semantik

open Scanner

structure Frame.WellFormed (f : Frame) : Prop where
  ne_empty : ¬ (f.event = "" ∧ f.data = "")
  event : LineSplit.Plain lf cr (asBytes f.event)
  data_cr : cr ∉ asBytes f.data
  data_head : (asBytes f.data).head? ≠ some lf

theorem plain_lossy {s : List UInt8} (h : LineSplit.Plain lf cr s) :
    LineSplit.Plain lf cr (asBytes (Utf8.lossy s)) := by
  rw [asBytes_eq]
  exact ⟨mt (Utf8.mem_of_mem_encode_lossy (by decide)) h.1,
    mt (Utf8.mem_of_mem_encode_lossy (by decide)) h.2⟩

theorem plain_of_subset {s t : List UInt8} (h : LineSplit.Plain lf cr t) (hst : s ⊆ t) :
    LineSplit.Plain lf cr s :=
  ⟨fun hmem => h.1 (hst hmem), fun hmem => h.2 (hst hmem)⟩

theorem splitField_subset (line : List UInt8) : (splitField line).2 ⊆ line := by
  unfold splitField
  split
  · next i _ =>
    dsimp only
    split_ifs
    · exact fun b hb => List.mem_of_mem_drop (List.mem_of_mem_tail hb)
    · exact fun b hb => List.mem_of_mem_drop hb
  · exact List.nil_subset line

/-- The lines that are already known to be terminated are plain. -/
theorem plain_openLines (s : List UInt8) : ∀ line ∈ (openLines s).1, LineSplit.Plain lf cr line := by
  intro line hline
  apply (LineSplit.plain_split cr_ne_lf s).1
  rw [LineSplit.split_eq cr_ne_lf]
  split_ifs
  · exact List.mem_append_left _ hline
  · exact hline

/-- So is the last line of a stream that ends in its tail. -/
theorem plain_tailLines {tail : List UInt8} (h : openLines tail = ([], tail)) :
    ∀ line ∈ tailLines tail, LineSplit.Plain lf cr line := by
  obtain ⟨hlines, htail⟩ := LineSplit.plain_split cr_ne_lf tail
  rw [LineSplit.split_eq cr_ne_lf] at hlines htail
  rw [openLines] at h
  rw [h] at hlines htail
  intro line hline
  rw [tailLines] at hline
  split_ifs at hline with hnil
  · cases hline
  · rw [List.mem_singleton] at hline
    rw [hline, stripTrailingCr]
    by_cases hlast : tail.getLast? = some cr
    · rw [if_pos hlast] at hlines ⊢
      exact hlines _ (List.mem_singleton.2 rfl)
    · rw [if_neg hlast] at htail ⊢
      exact htail

namespace Scanner

/-- The frame in progress can still become a well-formed frame. -/
structure Clean (s : Scanner) : Prop where
  event : LineSplit.Plain lf cr (asBytes s.curEvent)
  data_cr : cr ∉ asBytes s.curData
  data_head : (asBytes s.curData).head? ≠ some lf

theorem clean_new : Clean new := ⟨by simp [LineSplit.Plain, new, asBytes], by decide, by decide⟩

theorem Clean.withFrame {s : Scanner} (h : Clean s) (size : ℕ) :
    Clean (s.withFrame s.curEvent s.curData size) := ⟨h.event, h.data_cr, h.data_head⟩

theorem Clean.wellFormed {s : Scanner} (h : Clean s) (hidle : ¬ s.Idle) : s.takeFrame.1.WellFormed :=
  ⟨hidle, h.event, h.data_cr, h.data_head⟩

theorem Clean.appendData {data : String} (hcr : cr ∉ asBytes data)
    (hhead : (asBytes data).head? ≠ some lf) {value : List UInt8} (h : LineSplit.Plain lf cr value) :
    cr ∉ asBytes (appendData data value) ∧ (asBytes (appendData data value)).head? ≠ some lf := by
  have hvalue := plain_lossy h
  have hsep : cr ∉ asBytes "\n" := by decide
  unfold Semantik.appendData
  by_cases hdata : data = ""
  · rw [if_pos hdata, hdata, asBytes_append]
    exact ⟨hvalue.2, fun hmem => hvalue.1 (List.mem_of_mem_head? hmem)⟩
  · rw [if_neg hdata, asBytes_append, asBytes_append, List.append_assoc,
      List.head?_append_of_ne_nil _ (mt asBytes_eq_nil_iff.1 hdata)]
    simp only [List.mem_append, not_or]
    exact ⟨⟨hcr, hsep, hvalue.2⟩, hhead⟩

theorem Clean.applyField {s : Scanner} (h : Clean s) {line : List UInt8}
    (hline : LineSplit.Plain lf cr line) : Clean (s.applyField line) := by
  have hvalue := plain_of_subset hline (splitField_subset line)
  by_cases he : (splitField line).1 = asBytes "event"
  · rw [applyField_event he]
    exact ⟨plain_lossy hvalue, h.data_cr, h.data_head⟩
  by_cases hd : (splitField line).1 = asBytes "data"
  · rw [applyField_data hd]
    obtain ⟨hcr, hhead⟩ := Clean.appendData h.data_cr h.data_head hvalue
    exact ⟨h.event, hcr, hhead⟩
  · rwa [applyField_unknown he hd]

/-- One line keeps the frame in progress clean, and what it emits is well-formed. -/
theorem Clean.consumeLine {s : Scanner} (h : Clean s) {line : List UInt8}
    (hline : LineSplit.Plain lf cr line) : Clean (consumeLine s line).2 ∧
      ∀ f, (Scanner.consumeLine s line).1 = .ok (some f) → f.WellFormed := by
  rcases consumeLine_cases s line with ⟨-, -, heq⟩ | ⟨-, hidle, heq⟩ | ⟨-, heq⟩ | ⟨-, -, -, heq⟩ |
    ⟨-, -, -, heq⟩ <;> rw [heq]
  · exact ⟨h, by rintro f ⟨⟩⟩
  · refine ⟨⟨clean_new.event, clean_new.data_cr, clean_new.data_head⟩, ?_⟩
    rintro f ⟨⟩
    exact h.wellFormed hidle
  · exact ⟨h, by rintro f ⟨⟩⟩
  · exact ⟨h.withFrame _, by rintro f ⟨⟩⟩
  · exact ⟨(h.withFrame _).applyField hline, by rintro f ⟨⟩⟩

theorem Clean.consumeLines {s : Scanner} (h : Clean s) {lines : List (List UInt8)}
    (hlines : ∀ line ∈ lines, LineSplit.Plain lf cr line) :
    Clean (consumeLines s lines).state ∧ ∀ f ∈ (Scanner.consumeLines s lines).out, f.WellFormed := by
  induction lines generalizing s with
  | nil => exact ⟨h, by simp [Scanner.consumeLines]⟩
  | cons line lines ih =>
      obtain ⟨hline, hlines⟩ := List.forall_mem_cons.1 hlines
      obtain ⟨hclean, hframe⟩ := h.consumeLine hline
      rcases hstep : Scanner.consumeLine s line with ⟨e | o, s'⟩
      · rw [hstep] at hclean
        rw [consumeLines_cons_error hstep]
        exact ⟨hclean, by simp⟩
      · rw [hstep] at hclean hframe
        obtain ⟨hstate, hout⟩ := ih hclean hlines
        rw [consumeLines_cons_ok hstep]
        refine ⟨hstate, ?_⟩
        intro f hf
        obtain hf | hf := List.mem_append.1 hf
        · exact hframe f (congrArg Except.ok (Option.mem_toList.1 hf))
        · exact hout f hf

theorem wellFormed_close {s : Scanner} (h : Clean s) (hs : Settled s) {frame : Option Frame}
    {s' : Scanner} (hclose : s.close = (.ok frame, s')) : ∀ f ∈ frame.toList, f.WellFormed := by
  cases hclosed : s.closed with
  | true =>
      rw [close, hclosed] at hclose
      cases hclose
      simp
  | false =>
      have heq := close_eq hclosed
      obtain ⟨hclean, hout⟩ := h.consumeLines (plain_tailLines hs.tail)
      rw [hclose] at heq
      cases hstop : (Scanner.consumeLines s (tailLines s.buf)).stop with
      | some e =>
          rw [hstop] at heq
          cases heq
      | none =>
          rw [hstop] at heq
          have hframe : frame.toList = _ := Except.ok.inj heq
          rw [hframe]
          intro f hf
          obtain hf | hf := List.mem_append.1 hf
          · exact hout f hf
          · rw [flush] at hf
            split_ifs at hf with hidle
            · cases hf
            · rw [List.mem_singleton.1 hf]
              exact hclean.wellFormed hidle

/-- One chunk leaves the scanner settled and clean. -/
theorem Clean.feed {s s' : Scanner} (h : Clean s) (hs : Settled s) {chunk : List UInt8}
    {frames : List Frame} (hfeed : s.feed chunk = (.ok frames, s')) :
    Clean s' ∧ Settled s' ∧ ∀ f ∈ frames, f.WellFormed := by
  obtain ⟨herr, hok⟩ := hs.carriesCr.feed_eq chunk
  obtain ⟨hclean, hout⟩ := h.consumeLines (plain_openLines (s.buf ++ chunk))
  cases hstop : (Scanner.consumeLines s (openLines (s.buf ++ chunk)).1).stop with
  | some e =>
      have := (herr e hstop).1
      rw [hfeed] at this
      cases this
  | none =>
      rw [hok hstop] at hfeed
      cases hfeed
      exact ⟨⟨hclean.event, hclean.data_cr, hclean.data_head⟩, settled_withBuf _ _, hout⟩

end Scanner

/-- Every frame that a scanner yields over a body is well-formed. -/
theorem wellFormed_remaining (fin : BodyEnd) (events : List BodyEvent) {s : Scanner} (h : Clean s)
    (hs : Settled s) : ∀ f ∈ (remaining fin events s).1, f.WellFormed := by
  induction events generalizing s with
  | nil =>
      cases fin with
      | idle => simp [remaining]
      | error e => simp [remaining]
      | eof =>
          rcases hclose : s.close with ⟨⟨n⟩ | frame, s'⟩
          · simp [remaining, hclose]
          · simp only [remaining, hclose]
            exact wellFormed_close h hs hclose
  | cons event events ih =>
      cases event with
      | pending => exact ih h hs
      | chunk bytes =>
          rcases hfeed : s.feed bytes with ⟨⟨n⟩ | frames, s'⟩
          · simp [remaining_chunk_error hfeed]
          · obtain ⟨hclean, hsettled, hframes⟩ := h.feed hs hfeed
            rw [remaining_chunk hfeed]
            intro f hf
            obtain hf | hf := List.mem_append.1 hf
            · exact hframes f hf
            · exact ih hclean hsettled f hf

def linesOf (s : String) : List String := (s.toList.splitOn '\n').map String.ofList

def fieldEntry (name value : String) : Entry := ⟨name, value, .spaced, .lf⟩

def Frame.eventLines (f : Frame) : List String := if f.event = "" then [] else [f.event]

def Frame.dataLines (f : Frame) : List String := if f.data = "" then [] else linesOf f.data

/-- A frame written line by line. A field that is empty is left out. -/
def Frame.written (f : Frame) : WrittenFrame where
  entries := f.eventLines.map (fieldEntry "event") ++ f.dataLines.map (fieldEntry "data")
  terminator := .lf

theorem intercalate_linesOf (s : String) : "\n".intercalate (linesOf s) = s := by
  have hmap : (linesOf s).map String.toList = s.toList.splitOn '\n' := by
    rw [linesOf, List.map_map]
    exact (List.map_congr_left fun cs _ => String.toList_ofList).trans (List.map_id _)
  rw [← String.toList_inj, String.toList_intercalate, hmap]
  exact List.intercalate_splitOn '\n'

theorem of_mem_splitOn {a : Char} {xs piece : List Char} (h : piece ∈ xs.splitOn a) :
    a ∉ piece ∧ piece ⊆ xs := by
  induction xs generalizing piece with
  | nil =>
      rw [List.splitOn_nil, List.mem_singleton] at h
      subst h
      simp
  | cons x xs ih =>
      rw [List.splitOn_cons_eq_if_modifyHead] at h
      split_ifs at h with hx
      · obtain rfl | h := List.mem_cons.1 h
        · simp
        · exact ⟨(ih h).1, List.subset_cons_of_subset x (ih h).2⟩
      · obtain ⟨first, rest, hsplit⟩ := List.exists_cons_of_ne_nil (List.splitOn_ne_nil a xs)
        rw [hsplit] at h ih
        obtain rfl | h := List.mem_cons.1 h
        · obtain ⟨hmem, hsub⟩ := ih List.mem_cons_self
          refine ⟨?_, List.cons_subset_cons x hsub⟩
          rw [List.mem_cons, not_or]
          exact ⟨fun heq => hx (beq_iff_eq.2 heq.symm), hmem⟩
        · obtain ⟨hmem, hsub⟩ := ih (List.mem_cons_of_mem first h)
          exact ⟨hmem, List.subset_cons_of_subset x hsub⟩

theorem head_splitOn {a x : Char} (hx : x ≠ a) (xs : List Char) :
    ∃ piece pieces, (x :: xs).splitOn a = (x :: piece) :: pieces := by
  obtain ⟨first, rest, hsplit⟩ := List.exists_cons_of_ne_nil (List.splitOn_ne_nil a xs)
  exact ⟨first, rest, by rw [List.splitOn_cons_eq_if_modifyHead, hsplit]; simp [hx]⟩

theorem ascii_mem_asBytes {c : Char} (h : c.toNat < 0x80) {s : String} :
    Utf8.asciiByte c ∈ asBytes s ↔ c ∈ s.toList := by
  rw [asBytes_eq, Utf8.mem_encode_ascii (by rwa [Utf8.toNat_asciiByte h]), Utf8.toNat_asciiByte h]
  constructor
  · rintro ⟨c', hc', heq⟩
    rwa [← Char.toNat_inj.1 heq]
  · exact fun hc => ⟨c, hc, rfl⟩

theorem plain_asBytes_iff {s : String} :
    LineSplit.Plain lf cr (asBytes s) ↔ '\n' ∉ s.toList ∧ '\r' ∉ s.toList :=
  and_congr (not_congr (ascii_mem_asBytes (c := '\n') (by decide)))
    (not_congr (ascii_mem_asBytes (c := '\r') (by decide)))

theorem valuesFor_append (name : String) (entries entries' : List Entry) :
    valuesFor name (entries ++ entries') = valuesFor name entries ++ valuesFor name entries' := by
  simp [valuesFor]

theorem valuesFor_fieldEntries (name name' : String) (values : List String) :
    valuesFor name (values.map (fieldEntry name')) = if name' = name then values else [] := by
  induction values with
  | nil => simp [valuesFor]
  | cons value values ih =>
      rw [List.map_cons]
      split_ifs at ih ⊢ with hname
      · rw [valuesFor_cons_of_eq hname, ih]
        rfl
      · rw [valuesFor_cons_of_ne hname, ih]

namespace Frame.WellFormed

variable {f : Frame} (h : f.WellFormed)
include h

theorem plain_of_mem_linesOf {s : String} (hs : s ∈ linesOf f.data) :
    LineSplit.Plain lf cr (asBytes s) := by
  obtain ⟨piece, hpiece, rfl⟩ := List.mem_map.1 hs
  obtain ⟨hlf, hsub⟩ := of_mem_splitOn hpiece
  have hcr := mt (ascii_mem_asBytes (c := '\r') (by decide)).2 h.data_cr
  rw [plain_asBytes_iff, String.toList_ofList]
  exact ⟨hlf, fun hmem => hcr (hsub hmem)⟩

theorem wellWritten : f.written.WellWritten := by
  have hentry : ∀ name value, LineSplit.Plain lf cr (asBytes name) → colon ∉ asBytes name →
      LineSplit.Plain lf cr (asBytes value) → (fieldEntry name value).WellWritten := by
    intro name value hname hcolon hvalue
    exact ⟨hname, hcolon, hvalue, by rintro ⟨⟩, by rintro ⟨⟩⟩
  intro e he
  obtain he | he := List.mem_append.1 he
  · obtain ⟨s, hs, rfl⟩ := List.mem_map.1 he
    rw [eventLines] at hs
    split_ifs at hs
    · cases hs
    · rw [List.mem_singleton.1 hs]
      exact hentry _ _ ⟨by decide, by decide⟩ (by decide) h.event
  · obtain ⟨s, hs, rfl⟩ := List.mem_map.1 he
    rw [dataLines] at hs
    split_ifs at hs
    · cases hs
    · exact hentry _ _ ⟨by decide, by decide⟩ (by decide) (h.plain_of_mem_linesOf hs)

omit h in
theorem valuesFor_written (f : Frame) :
    valuesFor "event" f.written.entries = f.eventLines ∧
      valuesFor "data" f.written.entries = f.dataLines := by
  rw [written, valuesFor_append, valuesFor_append, valuesFor_fieldEntries, valuesFor_fieldEntries,
    valuesFor_fieldEntries, valuesFor_fieldEntries]
  exact ⟨List.append_nil _, List.nil_append _⟩

theorem frame_written : f.written.frame = some f := by
  obtain ⟨hevent, hdata⟩ := valuesFor_written f
  have hevent' : f.written.event = f.event := by
    rw [WrittenFrame.event, hevent, eventLines]
    split_ifs with hempty
    · exact hempty.symm
    · rfl
  have hdata' : f.written.data = f.data := by
    rw [WrittenFrame.data, hdata, dataLines]
    split_ifs with hempty
    · rw [hempty]
      rfl
    · exact intercalate_linesOf f.data
  rw [WrittenFrame.frame, hevent', hdata']
  exact if_neg h.ne_empty

theorem joinable_written : f.written.Joinable := by
  rw [WrittenFrame.Joinable, (valuesFor_written f).2, dataLines]
  split_ifs with hempty
  · exact .inl (by simp)
  · apply Or.inl
    rw [linesOf, List.head?_map]
    rcases hchars : f.data.toList with _ | ⟨c, cs⟩
    · exact absurd (String.toList_eq_nil_iff.1 hchars) hempty
    · have hc : c ≠ '\n' := by
        rintro rfl
        apply h.data_head
        rw [asBytes_eq, hchars]
        rfl
      obtain ⟨piece, pieces, hsplit⟩ := head_splitOn hc cs
      rw [hsplit]
      simp

end Frame.WellFormed

/-- Lines none of which ends in a carriage return alone are unambiguous. -/
theorem unambiguous_of_ne_cr {lines : List (List UInt8 × LineSplit.Terminator)}
    (h : ∀ l ∈ lines, l.2 ≠ .cr) : LineSplit.Unambiguous lines := by
  induction lines with
  | nil => trivial
  | cons l lines ih =>
      obtain ⟨hl, hlines⟩ := List.forall_mem_cons.1 h
      exact ⟨fun hcr => absurd hcr hl, ih hlines⟩

theorem wellWritten_written {frames : List Frame} (h : ∀ f ∈ frames, f.WellFormed) :
    WellWritten (frames.map Frame.written) where
  frame := List.forall_mem_map.2 fun f hf => (h f hf).wellWritten
  unambiguous := by
    apply unambiguous_of_ne_cr
    intro l hl
    obtain ⟨w, hw, hl⟩ := List.mem_flatMap.1 hl
    obtain ⟨f, -, rfl⟩ := List.mem_map.1 hw
    obtain hl | hl := List.mem_append.1 hl
    · obtain ⟨e, he, rfl⟩ := List.mem_map.1 hl
      obtain he | he := List.mem_append.1 he
      all_goals
        obtain ⟨s, -, rfl⟩ := List.mem_map.1 he
        simp [fieldEntry]
    · rw [List.mem_singleton.1 hl]
      simp [Frame.written]

/-- Without silent frames, a burst is a single frame. -/
theorem oversizedBurst_iff_of_not_silent {frames : List (List (List UInt8))}
    (h : ∀ frame ∈ frames, ¬ Silent frame) :
    OversizedBurst frames ↔ ∃ frame ∈ frames, maxSseFrameBytes < frameSize frame := by
  constructor
  · rintro ⟨run, frame, hinfix, hsilent, hbig⟩
    rcases run with _ | ⟨silent, run⟩
    · exact ⟨frame, List.IsInfix.subset hinfix (by simp), by simpa [totalSize] using hbig⟩
    · exact absurd (hsilent silent List.mem_cons_self) (h silent (List.IsInfix.subset hinfix (by simp)))
  · rintro ⟨frame, hmem, hbig⟩
    obtain ⟨before, after, rfl⟩ := List.append_of_mem hmem
    exact ⟨[], frame, ⟨before, after, by simp⟩, by simp, by simpa [totalSize] using hbig⟩

theorem Frame.WellFormed.not_silent {f : Frame} (h : f.WellFormed) : ¬ Silent f.written.lines := by
  intro hsilent
  have hwritten : ∀ g ∈ [f.written], g.WellWritten := by simpa using h.wellWritten
  have hsame := (emitted_eq_frame_iff hwritten).2 (by simpa using h.joinable_written)
  simp [emittedFrame_of_silent hsilent, h.frame_written] at hsame

/-- The frames that a body yields are well-formed. Written out line by line they are read back as
they were, under every cutting, exactly if none of them is then over the cap. -/
theorem frames_rewritable (body : Body) : (∀ f ∈ body.frames.1, f.WellFormed) ∧
    ∀ chunks : Cutting (encode (body.frames.1.map Frame.written)),
      scan chunks.1 = .ok body.frames.1 ↔
        ∀ f ∈ body.frames.1, frameSize f.written.lines ≤ maxSseFrameBytes := by
  have hwell := wellFormed_remaining body.fin body.events clean_new settled_new
  refine ⟨hwell, ?_⟩
  intro chunks
  change ∀ f ∈ body.frames.1, f.WellFormed at hwell
  generalize body.frames.1 = frames at hwell chunks
  have hwritten := wellWritten_written hwell
  have hframes : (frames.map Frame.written).filterMap WrittenFrame.frame = frames := by
    rw [List.filterMap_map]
    exact (List.filterMap_congr fun f hf => (hwell f hf).frame_written).trans List.filterMap_some
  have hjoin := (emitted_eq_frame_iff hwritten.frame).2
    (List.forall_mem_map.2 fun f hf => (hwell f hf).joinable_written)
  rw [hframes] at hjoin
  have hloud : ∀ lines ∈ (frames.map Frame.written).map WrittenFrame.lines, ¬ Silent lines := by
    simpa using fun f hf => (hwell f hf).not_silent
  have hburst := oversizedBurst_iff_of_not_silent hloud
  by_cases hover : OversizedBurst ((frames.map Frame.written).map WrittenFrame.lines)
  · obtain ⟨lines, hmem, hbig⟩ := hburst.1 hover
    simp only [List.mem_map, exists_exists_and_eq_and] at hmem
    obtain ⟨f, hf, rfl⟩ := hmem
    rw [scan_encode_of_burst hwritten chunks hover]
    exact iff_of_false (by simp) fun hall => absurd (hall f hf) (not_le.2 hbig)
  · rw [scan_encode hwritten chunks hover, hjoin]
    refine iff_of_true rfl ?_
    intro f hf
    by_contra hbig
    exact hover (hburst.2 ⟨_, List.mem_map_of_mem (List.mem_map_of_mem hf), not_le.1 hbig⟩)

end Semantik
