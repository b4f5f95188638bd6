import Mathlib.Algebra.GroupWithZero.Nat
import Mathlib.Algebra.Order.BigOperators.Group.List
import Semantik.SseCap

/-!
# How the data lines of a frame are joined

By the rule, the data of a frame are the values of all its data lines with line feeds between them,
and its event is the last event value. The scanner puts a line feed only after data that are already
non-empty, so it drops the empty values at the front.
-/

namespace Semantik

open Scanner

/-- The value of a field on a line: what follows the colon less one space, empty if the line is the
bare name. -/
def valueOn (name line : List UInt8) : Option (List UInt8) :=
  if line = name then some []
  else if name ++ [colon] <+: line then
    let rest := line.drop (name.length + 1)
    some (if rest.head? = some space then rest.tail else rest)
  else none

def valuesOn (name : List UInt8) (frame : List (List UInt8)) : List (List UInt8) :=
  frame.filterMap (valueOn name)

def lastEvent (frame : List (List UInt8)) : String :=
  ((valuesOn (asBytes "event") frame).getLast?.map Utf8.lossy).getD ""

def joinedData (frame : List (List UInt8)) : String :=
  "\n".intercalate ((valuesOn (asBytes "data") frame).map Utf8.lossy)

def frameOf (event data : String) : Option Frame :=
  if event = "" ∧ data = "" then none else some ⟨event, data⟩

def joinedFrame (frame : List (List UInt8)) : Option Frame :=
  frameOf (lastEvent frame) (joinedData frame)

def emittedFrame (frame : List (List UInt8)) : Option Frame :=
  frameOf (eventAfter "" frame) (dataAfter "" frame)

/-- The first data value is not empty, or there is no other. -/
def Joinable (frame : List (List UInt8)) : Prop :=
  (valuesOn (asBytes "data") frame).head? ≠ some [] ∨
    (valuesOn (asBytes "data") frame).length ≤ 1

def completeGroups (lines : List (List UInt8)) : List (List (List UInt8)) :=
  (frameGroups lines).dropLast

def openGroup (lines : List (List UInt8)) : List (List UInt8) := (frameGroups lines).getLastD []

theorem findIdx?_colon {line : List UInt8} (h : colon ∉ line) : line.findIdx? (· = colon) = none := by
  rw [List.findIdx?_eq_none_iff]
  intro b hb
  rw [decide_eq_false_iff_not]
  rintro rfl
  exact h hb

theorem splitField_of_mem {field : List UInt8} (rest : List UInt8) (h : colon ∉ field) :
    splitField (field ++ colon :: rest) =
      (field, if rest.head? = some space then rest.tail else rest) := by
  have hfind : (field ++ colon :: rest).findIdx? (· = colon) = some field.length := by
    simp [List.findIdx?_append, findIdx?_colon h, List.findIdx?_cons]
  have hdrop : (field ++ colon :: rest).drop (field.length + 1) = rest := by
    simp
  rw [splitField, hfind]
  simp only [hdrop, List.take_left]

theorem splitField_of_not_mem {line : List UInt8} (h : colon ∉ line) : splitField line = (line, []) := by
  rw [splitField, findIdx?_colon h]

theorem valueOn_eq {name : List UInt8} (hname : colon ∉ name) (line : List UInt8) :
    valueOn name line = if (splitField line).1 = name then some (splitField line).2 else none := by
  by_cases hline : colon ∈ line
  · obtain ⟨field, rest, rfl, hfield⟩ := List.eq_append_cons_of_mem hline
    have hne : field ++ colon :: rest ≠ name := by
      rintro rfl
      exact hname hline
    have hstarts : name ++ [colon] <+: field ++ colon :: rest ↔ field = name := by
      constructor
      · rintro ⟨post, hpost⟩
        rw [List.append_assoc, List.singleton_append] at hpost
        have hsplit := splitField_of_mem post hname
        rw [hpost, splitField_of_mem rest hfield] at hsplit
        exact congrArg Prod.fst hsplit
      · rintro rfl
        exact ⟨rest, by simp⟩
    rw [splitField_of_mem rest hfield, valueOn, if_neg hne]
    by_cases hfieldname : field = name
    · subst hfieldname
      rw [if_pos (hstarts.2 rfl), if_pos rfl]
      simp
    · rw [if_neg (mt hstarts.1 hfieldname), if_neg hfieldname]
  · have hstarts : ¬ name ++ [colon] <+: line := by
      intro h
      exact hline (h.subset (by simp))
    rw [splitField_of_not_mem hline, valueOn, if_neg hstarts]

theorem valuesOn_eq {name : List UInt8} (hname : colon ∉ name) (frame : List (List UInt8)) :
    valuesOn name frame = fieldValues name frame := by
  rw [valuesOn, fieldValues]
  congr 1
  funext line
  exact valueOn_eq hname line

theorem eventAfter_eq (frame : List (List UInt8)) : eventAfter "" frame = lastEvent frame := by
  rw [eventAfter, lastEvent, valuesOn_eq (by decide)]
  rcases List.eq_nil_or_concat (fieldValues (asBytes "event") frame) with h | ⟨vs, v, h⟩
  · simp [h]
  · simp [h]

theorem foldl_appendData {data : String} (h : data ≠ "") (values : List (List UInt8)) :
    values.foldl appendData data = "\n".intercalate (data :: values.map Utf8.lossy) := by
  induction values generalizing data with
  | nil => rw [List.foldl_nil, List.map_nil, String.intercalate_singleton]
  | cons value values ih =>
      have hne : appendData data value ≠ "" := by
        rw [Ne, appendData_eq_empty_iff]
        exact fun hempty => h hempty.1
      rw [List.foldl_cons, ih hne, appendData, if_neg h, List.map_cons,
        String.intercalate_cons_cons, String.append_assoc, String.intercalate_cons_append,
        String.intercalate_cons_append, String.append_assoc]

theorem appendData_empty (value : List UInt8) : appendData "" value = Utf8.lossy value := by
  simp [appendData]

theorem foldl_appendData_of_ne {value : List UInt8} (h : value ≠ []) (values : List (List UInt8)) :
    (value :: values).foldl appendData "" =
      "\n".intercalate ((value :: values).map Utf8.lossy) := by
  have hne : Utf8.lossy value ≠ "" := mt Utf8.lossy_eq_empty_iff.1 h
  rw [List.foldl_cons, appendData_empty, foldl_appendData hne, List.map_cons]

theorem intercalate_size_cons (value value' : String) (values : List String) :
    ("\n".intercalate (value :: value' :: values)).utf8ByteSize =
      value.utf8ByteSize + 1 + ("\n".intercalate (value' :: values)).utf8ByteSize := by
  have hlf : "\n".utf8ByteSize = 1 := rfl
  rw [String.intercalate_cons_cons, String.utf8ByteSize_append, String.utf8ByteSize_append, hlf]

/-- The scanner never makes more of the values than the rule. -/
theorem foldl_appendData_size_le (values : List (List UInt8)) :
    (values.foldl appendData "").utf8ByteSize ≤
      ("\n".intercalate (values.map Utf8.lossy)).utf8ByteSize := by
  induction values with
  | nil => exact Nat.le_refl _
  | cons value values ih =>
      by_cases hvalue : value = []
      · subst hvalue
        rw [List.foldl_cons, appendData_empty, Utf8.lossy_nil]
        cases values with
        | nil => exact Nat.zero_le _
        | cons value' values =>
            rw [List.map_cons, List.map_cons, intercalate_size_cons, ← List.map_cons]
            omega
      · rw [foldl_appendData_of_ne hvalue]

theorem dataAfter_size_le (frame : List (List UInt8)) :
    (dataAfter "" frame).utf8ByteSize ≤ (joinedData frame).utf8ByteSize := by
  rw [dataAfter, joinedData, valuesOn_eq (by decide)]
  exact foldl_appendData_size_le _

theorem dataAfter_of_joinable {frame : List (List UInt8)} (h : Joinable frame) :
    dataAfter "" frame = joinedData frame := by
  rw [Joinable, valuesOn_eq (by decide)] at h
  rw [dataAfter, joinedData, valuesOn_eq (by decide)]
  generalize fieldValues (asBytes "data") frame = values at h
  rcases values with _ | ⟨value, _ | ⟨value', values⟩⟩
  · rfl
  · rw [List.foldl_cons, List.foldl_nil, appendData_empty, List.map_singleton,
      String.intercalate_singleton]
  · apply foldl_appendData_of_ne
    simpa using h

/-- An empty value in front of another is lost, and with it a line feed. -/
theorem dataAfter_size_lt {frame : List (List UInt8)} (h : ¬ Joinable frame) :
    (dataAfter "" frame).utf8ByteSize < (joinedData frame).utf8ByteSize := by
  rw [Joinable, valuesOn_eq (by decide)] at h
  rw [dataAfter, joinedData, valuesOn_eq (by decide)]
  generalize fieldValues (asBytes "data") frame = values at h
  rcases values with _ | ⟨value, _ | ⟨value', values⟩⟩
  · simp at h
  · simp at h
  · obtain rfl : value = [] := by simpa using h
    have hle := foldl_appendData_size_le (value' :: values)
    rw [List.foldl_cons, appendData_empty, Utf8.lossy_nil, List.map_cons, List.map_cons,
      intercalate_size_cons, ← List.map_cons]
    omega

theorem frameGroups_ne_nil (lines : List (List UInt8)) : frameGroups lines ≠ [] :=
  List.splitOnP_ne_nil _ _

theorem frameOf_data_sum (event data : List (List UInt8) → String)
    (frames : List (List (List UInt8))) :
    ((frames.filterMap fun frame => frameOf (event frame) (data frame)).map
      fun frame => frame.data.utf8ByteSize).sum =
        (frames.map fun frame => (data frame).utf8ByteSize).sum := by
  induction frames with
  | nil => rfl
  | cons frame frames ih =>
      rw [List.filterMap_cons, List.map_cons, List.sum_cons]
      by_cases h : event frame = "" ∧ data frame = ""
      · have hnone : frameOf (event frame) (data frame) = none := if_pos h
        rw [hnone, h.2, String.utf8ByteSize_empty, Nat.zero_add]
        exact ih
      · have hsome : frameOf (event frame) (data frame) = some ⟨event frame, data frame⟩ := if_neg h
        rw [hsome, ← ih]
        rfl

/-- No frame makes up for another: the scanner follows the rule on all of them or not at all. -/
theorem filterMap_emitted_eq_iff (frames : List (List (List UInt8))) :
    frames.filterMap emittedFrame = frames.filterMap joinedFrame ↔
      ∀ frame ∈ frames, Joinable frame := by
  constructor
  · intro heq frame hmem
    by_contra hframe
    have hsum := List.sum_lt_sum (fun frame => (dataAfter "" frame).utf8ByteSize)
      (fun frame => (joinedData frame).utf8ByteSize) (fun frame _ => dataAfter_size_le frame)
      ⟨frame, hmem, dataAfter_size_lt hframe⟩
    rw [← frameOf_data_sum (eventAfter ""), ← frameOf_data_sum lastEvent] at hsum
    have hdata := congrArg (fun out => (out.map fun frame => frame.data.utf8ByteSize).sum) heq
    exact absurd hdata hsum.ne
  · intro h
    apply List.filterMap_congr
    intro frame hmem
    rw [emittedFrame, joinedFrame, eventAfter_eq, dataAfter_of_joinable (h frame hmem)]

namespace Scanner

theorem emittedFrame_of_silent {frame : List (List UInt8)} (h : Silent frame) : emittedFrame frame = none :=
  if_pos ((silent_iff frame).1 h)

theorem emittedFrame_of_not_silent {frame : List (List UInt8)} (h : ¬ Silent frame) :
    emittedFrame frame = some ⟨eventAfter "" frame, dataAfter "" frame⟩ :=
  if_neg (mt (silent_iff frame).2 h)

/-- From the start of a frame, each blank line emits what the lines before it have made, and the
lines after the last one are in progress. -/
theorem consumeLines_groups {s : Scanner} (hidle : s.Idle) (hs : s.curSize ≤ maxSseFrameBytes)
    {lines : List (List UInt8)} (h : (consumeLines s lines).stop = none) :
    (consumeLines s lines).out = (completeGroups lines).filterMap emittedFrame ∧
      ((consumeLines s lines).state.Idle ↔ Silent (openGroup lines)) := by
  induction lines using frame_induction generalizing s with
  | last frame hframe =>
      have hfit : s.curSize + frameSize frame ≤ maxSseFrameBytes := by
        by_contra hnot
        rw [consumeLines_group_tooLarge hframe hs (not_le.1 hnot)] at h
        cases h
      rw [completeGroups, openGroup, frameGroups_nonBlank hframe, consumeLines_group hframe hfit]
      exact ⟨rfl, idle_withFrame_iff hidle frame _⟩
  | blank frame rest hframe ih =>
      have hfit : s.curSize + frameSize frame ≤ maxSseFrameBytes := by
        by_contra hnot
        have hstop := consumeLines_group_tooLarge hframe hs (not_le.1 hnot)
        rw [consumeLines_append_of_stop hstop, hstop] at h
        cases h
      have hgroup := consumeLines_group hframe hfit
      have hcomplete : completeGroups (frame ++ [] :: rest) = frame :: completeGroups rest := by
        rw [completeGroups, frameGroups_blank hframe,
          List.dropLast_cons_of_ne_nil (frameGroups_ne_nil rest)]
        rfl
      have hopen : openGroup (frame ++ [] :: rest) = openGroup rest := by
        rw [openGroup, openGroup, frameGroups_blank hframe, List.getLastD_cons,
          List.getLastD_eq_getLast?, List.getLastD_eq_getLast?,
          List.getLast?_eq_some_getLast (frameGroups_ne_nil rest)]
        rfl
      have hsilent := idle_withFrame_iff hidle frame (s.curSize + frameSize frame)
      rw [hcomplete, hopen, List.filterMap_cons]
      rw [consumeLines_append (by rw [hgroup]), hgroup] at h ⊢
      by_cases hsil : Silent frame
      · rw [consumeLines_cons_ok (consumeLine_blank_idle (hsilent.2 hsil))] at h ⊢
        obtain ⟨hout, hstate⟩ := ih (hsilent.2 hsil) hfit h
        rw [emittedFrame_of_silent hsil, ← hout]
        exact ⟨rfl, hstate⟩
      · rw [consumeLines_cons_ok (consumeLine_blank (mt hsilent.1 hsil))] at h ⊢
        obtain ⟨hout, hstate⟩ := ih ⟨rfl, rfl⟩ (Nat.zero_le _) h
        rw [emittedFrame_of_not_silent hsil, ← hout]
        refine ⟨?_, hstate⟩
        simp only [takeFrame, withFrame_curEvent, withFrame_curData, hidle.1, hidle.2]
        rfl

def WithinCap (lines : List (List UInt8)) : Prop :=
  ∀ frame ∈ frameGroups lines, frameSize frame ≤ maxSseFrameBytes

/-- The lines were taken, and for each complete frame of them was emitted what the rule says. -/
def Joins (lines : List (List UInt8)) (run : Transducer.Run Scanner ScanError Frame) : Prop :=
  run.stop = none ∧ run.out = (completeGroups lines).filterMap joinedFrame

/-- At every line, and after every call of `feed`, as long as no frame is over the cap. -/
def FollowsRule (chunks : List (List UInt8)) : Prop :=
  (∀ front, front <+: (openLines chunks.flatten).1 → WithinCap front →
    Joins front (consumeLines new front)) ∧
  ∀ front, front <+: chunks → WithinCap (openLines front.flatten).1 →
    Joins (openLines front.flatten).1 (feedAll new front)

theorem consumeLines_joins_iff (lines : List (List UInt8)) :
    Joins lines (consumeLines new lines) ↔
      ¬ OversizedBurst (frameGroups lines) ∧ ∀ frame ∈ completeGroups lines, Joinable frame := by
  have hiff := stop_iff_overflows (s := new) ⟨rfl, rfl⟩ (Nat.zero_le _) lines
  have hnone : (consumeLines new lines).stop = none ↔ ¬ OversizedBurst (frameGroups lines) := by
    rw [← overflows_iff_oversizedBurst]
    exact not_iff_not.1 (hiff.trans not_not.symm)
  rw [Joins, ← hnone]
  apply and_congr_right
  intro hstop
  rw [(consumeLines_groups ⟨rfl, rfl⟩ (Nat.zero_le _) hstop).1, filterMap_emitted_eq_iff]

/-- The calls of `feed` follow the rule where `consumeLine` does. -/
theorem feedAll_joins {chunks : List (List UInt8)}
    (h : Joins (openLines chunks.flatten).1 (consumeLines new (openLines chunks.flatten).1)) :
    Joins (openLines chunks.flatten).1 (feedAll new chunks) := by
  have hstop := (feedAll_stop chunks).trans h.1
  exact ⟨hstop, (feedAll_of_stop hstop).1.trans h.2⟩

theorem openLines_isPrefix {s t : List UInt8} (h : s <+: t) : (openLines s).1 <+: (openLines t).1 := by
  obtain ⟨rest, rfl⟩ := h
  rw [openLines_append]
  exact List.prefix_append _ _

/-- The scanner follows the rule up to the first frame over the cap exactly if, of the frames that
are complete before it, none has an empty first data value and another one, and none is refused for
the size of the silent frames before it. -/
theorem feed_joins_iff (chunks : List (List UInt8)) :
    FollowsRule chunks ↔
      ∀ front, front <+: (openLines chunks.flatten).1 → WithinCap front →
        ¬ OversizedBurst (frameGroups front) ∧ ∀ frame ∈ completeGroups front, Joinable frame := by
  simp only [← consumeLines_joins_iff]
  constructor
  · intro h
    exact h.1
  · intro h
    refine ⟨h, ?_⟩
    rintro front ⟨rest, rfl⟩ hcap
    apply feedAll_joins
    apply h _ _ hcap
    rw [List.flatten_append]
    exact openLines_isPrefix (List.prefix_append _ _)

def emptyFirst : List UInt8 := asBytes "data:\ndata: x\n\n"

/-- The data should be a line feed and `x`, and are `x`. -/
theorem not_joins_emptyFirst : ¬ FollowsRule [emptyFirst] := by
  intro h
  have hout := (h.2 [emptyFirst] List.prefix_rfl (by unfold WithinCap; decide)).2
  have hemitted : (feedAll new [emptyFirst]).out = [⟨"", "x"⟩] := by rfl
  rw [hemitted] at hout
  exact absurd hout (by decide)

end Scanner

end Semantik
