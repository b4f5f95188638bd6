import Semantik.SseJoining

/-!
# Writing event streams

The texts that a server may send for a sequence of frames: a field is written with a space after
its colon, without one or as a bare name, comments and other fields may stand between those of a
frame, and each line has a terminator of its own. The scanner reads back the frames from each of
these texts, under every cutting, if they keep to its cap and the first of several data lines is not
empty.
-/

namespace Semantik

open Scanner

/-- How a field is written: with a space after the colon, without one, or as its bare name. -/
inductive FieldStyle where
  | spaced
  | tight
  | bare
deriving DecidableEq, Repr

/-- A line of a frame as a server writes it. A line with an empty name is a comment. -/
structure Entry where
  name : String
  value : String
  style : FieldStyle
  terminator : LineSplit.Terminator
deriving DecidableEq, Repr

structure WrittenFrame where
  entries : List Entry
  terminator : LineSplit.Terminator
deriving DecidableEq, Repr

namespace Entry

def line (e : Entry) : List UInt8 :=
  match e.style with
  | .spaced => asBytes e.name ++ colon :: space :: asBytes e.value
  | .tight => asBytes e.name ++ colon :: asBytes e.value
  | .bare => asBytes e.name

/-- The entry can be told from its line. -/
structure WellWritten (e : Entry) : Prop where
  name_plain : LineSplit.Plain lf cr (asBytes e.name)
  name_colon : colon ∉ asBytes e.name
  value_plain : LineSplit.Plain lf cr (asBytes e.value)
  tight : e.style = .tight → (asBytes e.value).head? ≠ some space
  bare : e.style = .bare → e.name ≠ "" ∧ e.value = ""

instance (e : Entry) : Decidable e.WellWritten :=
  decidable_of_iff (LineSplit.Plain lf cr (asBytes e.name) ∧ colon ∉ asBytes e.name ∧
      LineSplit.Plain lf cr (asBytes e.value) ∧
      (e.style = .tight → (asBytes e.value).head? ≠ some space) ∧
      (e.style = .bare → e.name ≠ "" ∧ e.value = ""))
    ⟨fun ⟨h₁, h₂, h₃, h₄, h₅⟩ => ⟨h₁, h₂, h₃, h₄, h₅⟩, fun h => ⟨h.1, h.2, h.3, h.4, h.5⟩⟩

theorem WellWritten.splitField_line {e : Entry} (h : e.WellWritten) :
    splitField e.line = (asBytes e.name, asBytes e.value) := by
  unfold line
  split
  · rw [splitField_of_mem _ h.name_colon]
    rfl
  · next hstyle => rw [splitField_of_mem _ h.name_colon, if_neg (h.tight hstyle)]
  · next hstyle =>
    rw [splitField_of_not_mem h.name_colon, (h.bare hstyle).2]
    rfl

theorem WellWritten.line_ne_nil {e : Entry} (h : e.WellWritten) : e.line ≠ [] := by
  unfold line
  split
  · simp
  · simp
  · next hstyle => exact mt asBytes_eq_nil_iff.1 (h.bare hstyle).1

theorem WellWritten.plain_line {e : Entry} (h : e.WellWritten) : LineSplit.Plain lf cr e.line := by
  have happend : ∀ {s t : List UInt8}, LineSplit.Plain lf cr s → LineSplit.Plain lf cr t →
      LineSplit.Plain lf cr (s ++ t) := by
    intro s t hs ht
    simp only [LineSplit.Plain, List.mem_append, not_or]
    exact ⟨⟨hs.1, ht.1⟩, hs.2, ht.2⟩
  have hcolon : LineSplit.Plain lf cr [colon] := by simp [LineSplit.Plain, lf, cr, colon]
  have hspace : LineSplit.Plain lf cr [space] := by simp [LineSplit.Plain, lf, cr, space]
  unfold line
  split
  · exact happend h.name_plain (happend hcolon (happend hspace h.value_plain))
  · exact happend h.name_plain (happend hcolon h.value_plain)
  · exact h.name_plain

end Entry

def valuesFor (name : String) (entries : List Entry) : List String :=
  (entries.filter (·.name = name)).map Entry.value

theorem valuesFor_cons_of_eq {name : String} {e : Entry} (h : e.name = name)
    (entries : List Entry) : valuesFor name (e :: entries) = e.value :: valuesFor name entries := by
  simp [valuesFor, h]

theorem valuesFor_cons_of_ne {name : String} {e : Entry} (h : e.name ≠ name)
    (entries : List Entry) : valuesFor name (e :: entries) = valuesFor name entries := by
  simp [valuesFor, h]

namespace WrittenFrame

def lines (f : WrittenFrame) : List (List UInt8) := f.entries.map Entry.line

def text (f : WrittenFrame) : List (List UInt8 × LineSplit.Terminator) :=
  f.entries.map (fun e => (e.line, e.terminator)) ++ [([], f.terminator)]

def event (f : WrittenFrame) : String := (valuesFor "event" f.entries).getLast?.getD ""

def data (f : WrittenFrame) : String := "\n".intercalate (valuesFor "data" f.entries)

def frame (f : WrittenFrame) : Option Frame := frameOf f.event f.data

def WellWritten (f : WrittenFrame) : Prop := ∀ e ∈ f.entries, e.WellWritten

def Joinable (f : WrittenFrame) : Prop :=
  (valuesFor "data" f.entries).head? ≠ some "" ∨ (valuesFor "data" f.entries).length ≤ 1

instance (f : WrittenFrame) : Decidable f.WellWritten := inferInstanceAs (Decidable (∀ _ ∈ _, _))

instance (f : WrittenFrame) : Decidable f.Joinable := inferInstanceAs (Decidable (_ ∨ _))

theorem fieldValues_lines {name : String} {entries : List Entry}
    (h : ∀ e ∈ entries, e.WellWritten) :
    fieldValues (asBytes name) (entries.map Entry.line) =
      (valuesFor name entries).map asBytes := by
  induction entries with
  | nil => rfl
  | cons e entries ih =>
      obtain ⟨he, hentries⟩ := List.forall_mem_cons.1 h
      rw [List.map_cons, fieldValues_cons, ih hentries]
      by_cases hname : e.name = name
      · have hline : (splitField e.line).1 = asBytes name := by rw [he.splitField_line, hname]
        rw [valuesFor_cons_of_eq hname, fieldValues_of_eq hline, he.splitField_line]
        rfl
      · have hline : (splitField e.line).1 ≠ asBytes name := by
          rw [he.splitField_line]
          exact mt asBytes_inj.1 hname
        rw [valuesFor_cons_of_ne hname, fieldValues_of_ne hline, List.nil_append]

variable {f : WrittenFrame} (h : f.WellWritten)
include h

theorem WellWritten.nonBlank : NonBlank f.lines := by
  intro line hline
  obtain ⟨e, he, rfl⟩ := List.mem_map.1 hline
  exact (h e he).line_ne_nil

theorem WellWritten.joinedFrame_lines : joinedFrame f.lines = f.frame := by
  have hlossy : (fun v => Utf8.lossy (asBytes v)) = id := funext lossy_asBytes
  rw [joinedFrame, frame, lastEvent, joinedData, valuesOn_eq (by decide), valuesOn_eq (by decide),
    lines, fieldValues_lines h, fieldValues_lines h, List.getLast?_map, Option.map_map,
    List.map_map, Function.comp_def, hlossy, Option.map_id, List.map_id]
  rfl

theorem WellWritten.joinable_lines : Semantik.Joinable f.lines ↔ f.Joinable := by
  rw [Semantik.Joinable, Joinable, valuesOn_eq (by decide), lines, fieldValues_lines h,
    List.head?_map, List.length_map]
  apply or_congr_left
  apply not_congr
  rw [Option.map_eq_some_iff]
  simp [asBytes_eq_nil_iff]

end WrittenFrame

def encode (frames : List WrittenFrame) : List UInt8 :=
  LineSplit.join lf cr (frames.flatMap WrittenFrame.text)

def encodedLines (frames : List WrittenFrame) : List (List UInt8) :=
  (frames.flatMap WrittenFrame.text).map Prod.fst

/-- Frames that are written so that their lines can be told apart. -/
structure WellWritten (frames : List WrittenFrame) : Prop where
  frame : ∀ f ∈ frames, f.WellWritten
  unambiguous : LineSplit.Unambiguous (frames.flatMap WrittenFrame.text)

theorem encodedLines_cons (f : WrittenFrame) (frames : List WrittenFrame) :
    encodedLines (f :: frames) = f.lines ++ [] :: encodedLines frames := by
  simp only [encodedLines, List.flatMap_cons, List.map_append, WrittenFrame.text, List.map_map,
    WrittenFrame.lines, List.append_assoc]
  rfl

theorem frameGroups_encodedLines {frames : List WrittenFrame} (h : ∀ f ∈ frames, f.WellWritten) :
    frameGroups (encodedLines frames) = frames.map WrittenFrame.lines ++ [[]] := by
  induction frames with
  | nil => rfl
  | cons f frames ih =>
      obtain ⟨hf, hframes⟩ := List.forall_mem_cons.1 h
      rw [encodedLines_cons, frameGroups_blank hf.nonBlank, ih hframes]
      rfl

theorem WellWritten.plain {frames : List WrittenFrame} (h : WellWritten frames) :
    ∀ l ∈ frames.flatMap WrittenFrame.text, LineSplit.Plain lf cr l.1 := by
  intro l hl
  obtain ⟨f, hf, hl⟩ := List.mem_flatMap.1 hl
  obtain hl | hl := List.mem_append.1 hl
  · obtain ⟨e, he, rfl⟩ := List.mem_map.1 hl
    exact (h.frame f hf e he).plain_line
  · rw [List.mem_singleton.1 hl]
    simp [LineSplit.Plain]

theorem WellWritten.splitLines {frames : List WrittenFrame} (h : WellWritten frames) :
    splitLines (encode frames) = (encodedLines frames, []) := by
  have htail : LineSplit.Plain lf cr [] := by simp [LineSplit.Plain]
  have hsplit := LineSplit.split_join_append cr_ne_lf h.plain h.unambiguous htail
  rwa [List.append_nil] at hsplit

/-- An empty group at the end has no part in a burst. -/
theorem overflows_concat_nil {carried : ℕ} (hc : carried ≤ maxSseFrameBytes)
    (frames : List (List (List UInt8))) :
    Overflows carried (frames ++ [[]]) ↔ Overflows carried frames := by
  induction frames generalizing carried with
  | nil =>
      have hsize : frameSize [] = 0 := rfl
      simp only [List.nil_append, Overflows, hsize, or_false]
      exact iff_of_false (not_lt.2 hc) not_false
  | cons frame frames ih =>
      rw [List.cons_append, Overflows, Overflows]
      by_cases hbig : maxSseFrameBytes < carried + frameSize frame
      · exact iff_of_true (.inl hbig) (.inl hbig)
      · apply or_congr_right
        apply ih
        split_ifs
        · exact not_lt.1 hbig
        · exact Nat.zero_le _

namespace Scanner

theorem stop_encodedLines_iff {frames : List WrittenFrame} (h : ∀ f ∈ frames, f.WellWritten) :
    (consumeLines new (encodedLines frames)).stop = none ↔
      ¬ OversizedBurst (frames.map WrittenFrame.lines) := by
  have hiff := stop_iff_overflows (s := new) ⟨rfl, rfl⟩ (Nat.zero_le _) (encodedLines frames)
  rw [frameGroups_encodedLines h] at hiff
  rw [← overflows_iff_oversizedBurst, ← overflows_concat_nil (Nat.zero_le _)]
  exact not_iff_not.1 (not_not.trans hiff.symm).symm

/-- The scanner makes of each written frame what it makes of its lines, and waits for the next. -/
theorem consumeLines_encodedLines {frames : List WrittenFrame} (h : ∀ f ∈ frames, f.WellWritten)
    (hburst : ¬ OversizedBurst (frames.map WrittenFrame.lines)) :
    (consumeLines new (encodedLines frames)).out =
        (frames.map WrittenFrame.lines).filterMap emittedFrame ∧
      (consumeLines new (encodedLines frames)).state.Idle := by
  have hstop := (stop_encodedLines_iff h).2 hburst
  obtain ⟨hout, hidle⟩ := consumeLines_groups (s := new) ⟨rfl, rfl⟩ (Nat.zero_le _) hstop
  have hgroups := frameGroups_encodedLines h
  rw [completeGroups, hgroups, List.dropLast_concat] at hout
  rw [openGroup, hgroups, List.getLastD_concat] at hidle
  exact ⟨hout, hidle.2 ⟨rfl, by simp [fieldValues]⟩⟩

theorem emitted_eq_frame_iff {frames : List WrittenFrame} (h : ∀ f ∈ frames, f.WellWritten) :
    (frames.map WrittenFrame.lines).filterMap emittedFrame = frames.filterMap WrittenFrame.frame ↔
      ∀ f ∈ frames, f.Joinable := by
  have hjoined : (frames.map WrittenFrame.lines).filterMap joinedFrame =
      frames.filterMap WrittenFrame.frame := by
    rw [List.filterMap_map]
    exact List.filterMap_congr fun f hf => (h f hf).joinedFrame_lines
  rw [← hjoined, filterMap_emitted_eq_iff, List.forall_mem_map]
  exact forall₂_congr fun f hf => (h f hf).joinable_lines

theorem allLines_encode {frames : List WrittenFrame} (h : WellWritten frames)
    (chunks : Cutting (encode frames)) : allLines chunks.1.flatten = encodedLines frames := by
  rw [chunks.2, allLines, h.splitLines]
  exact List.append_nil _

theorem scan_encode_of_burst {frames : List WrittenFrame} (h : WellWritten frames)
    (chunks : Cutting (encode frames)) (hburst : OversizedBurst (frames.map WrittenFrame.lines)) :
    scan chunks.1 = .error (.frameTooLarge maxSseFrameBytes) := by
  obtain ⟨e, he⟩ := Option.ne_none_iff_exists'.1
    (mt (stop_encodedLines_iff h.frame).1 (not_not.2 hburst))
  rw [scan_eq, allLines_encode h, he, stop_eq_frameTooLarge he]

theorem scan_encode {frames : List WrittenFrame} (h : WellWritten frames)
    (chunks : Cutting (encode frames))
    (hburst : ¬ OversizedBurst (frames.map WrittenFrame.lines)) :
    scan chunks.1 = .ok ((frames.map WrittenFrame.lines).filterMap emittedFrame) := by
  obtain ⟨hout, hidle⟩ := consumeLines_encodedLines h.frame hburst
  have hflush : flush (consumeLines new (encodedLines frames)).state = none := if_pos hidle
  rw [scan_eq, referenceFrames, allLines_encode h, (stop_encodedLines_iff h.frame).2 hburst, hout,
    hflush]
  simp

/-- However the frames are written and however the stream is cut, the scanner reads back exactly
the frames that were written, unless a frame, with the silent ones before it, is over the cap, or
the first of several data lines of a frame is empty. -/
theorem scan_encode_eq_iff {frames : List WrittenFrame} (h : WellWritten frames)
    (chunks : Cutting (encode frames)) :
    scan chunks.1 = .ok (frames.filterMap WrittenFrame.frame) ↔
      (¬ OversizedBurst (frames.map WrittenFrame.lines)) ∧ ∀ f ∈ frames, f.Joinable := by
  by_cases hburst : OversizedBurst (frames.map WrittenFrame.lines)
  · rw [scan_encode_of_burst h chunks hburst]
    simp [hburst]
  · rw [scan_encode h chunks hburst, ← emitted_eq_frame_iff h.frame]
    simp [hburst]

def sampleWritten : List WrittenFrame :=
  [⟨[⟨"event", "match", .tight, .crlf⟩, ⟨"", "ping", .spaced, .cr⟩, ⟨"data", "a", .spaced, .lf⟩,
      ⟨"data", "", .bare, .cr⟩], .crlf⟩,
    ⟨[⟨"data", " b", .spaced, .lf⟩], .cr⟩]

theorem scan_encode_eq_iff_sample : WellWritten sampleWritten ∧
    (scan [encode sampleWritten] = .ok (sampleWritten.filterMap WrittenFrame.frame) ↔
      (¬ OversizedBurst (sampleWritten.map WrittenFrame.lines)) ∧
        ∀ f ∈ sampleWritten, f.Joinable) := by
  have h : WellWritten sampleWritten := ⟨by decide, by decide⟩
  exact ⟨h, scan_encode_eq_iff h ⟨[encode sampleWritten], by simp⟩⟩

end Scanner

end Semantik
