import Semantik.SseLines

/-!
# Frames as groups of lines

Lines between blank lines form the frames of a stream. A group within the cap only updates the frame
in progress: the event is the last event value, the data joins the data values, and the size adds up
the lines that are not comments.
-/

namespace Semantik

/-- Bytes of a line that count towards the frame size: none for a comment. -/
def countedBytes (line : List UInt8) : ℕ := if line.head? = some colon then 0 else line.length

def frameSize (frame : List (List UInt8)) : ℕ := (frame.map countedBytes).sum

def frameGroups (lines : List (List UInt8)) : List (List (List UInt8)) :=
  lines.splitOnP List.isEmpty

def fieldValues (name : List UInt8) (frame : List (List UInt8)) : List (List UInt8) :=
  frame.filterMap (fun line => if (splitField line).1 = name then some (splitField line).2 else none)

/-- A frame that leaves event and data empty, so that its blank line emits nothing. -/
def Silent (frame : List (List UInt8)) : Prop :=
  (fieldValues (asBytes "event") frame).getLast?.getD [] = [] ∧
    ∀ value ∈ fieldValues (asBytes "data") frame, value = []

def NonBlank (frame : List (List UInt8)) : Prop := ∀ line ∈ frame, line ≠ []

theorem frameSize_cons (line : List UInt8) (frame : List (List UInt8)) :
    frameSize (line :: frame) = countedBytes line + frameSize frame := by
  simp [frameSize]

theorem frameGroups_nonBlank {frame : List (List UInt8)} (h : NonBlank frame) :
    frameGroups frame = [frame] :=
  List.splitOnP_eq_singleton (fun line hline => by simpa using h line hline)

theorem frameGroups_blank {frame : List (List UInt8)} (h : NonBlank frame)
    (rest : List (List UInt8)) : frameGroups (frame ++ [] :: rest) = frame :: frameGroups rest :=
  List.splitOnP_append_cons_of_forall_mem (fun line hline => by simpa using h line hline) [] rfl rest

/-- Induction over the frames of a list of lines. -/
theorem frame_induction {P : List (List UInt8) → Prop} (last : ∀ frame, NonBlank frame → P frame)
    (blank : ∀ frame rest, NonBlank frame → P rest → P (frame ++ [] :: rest))
    (lines : List (List UInt8)) : P lines := by
  suffices h : ∀ frame, NonBlank frame → P (frame ++ lines) from h [] (by simp [NonBlank])
  induction lines with
  | nil => intro frame hframe; rw [List.append_nil]; exact last frame hframe
  | cons line lines ih =>
      intro frame hframe
      by_cases hline : line = []
      · rw [hline]
        exact blank frame lines hframe (ih [] (by simp [NonBlank]))
      · have happ := ih (frame ++ [line]) (by
          intro l hl
          rcases List.mem_append.mp hl with hl | hl
          · exact hframe l hl
          · rwa [List.mem_singleton.mp hl])
        rwa [List.append_assoc] at happ

def eventAfter (event : String) (frame : List (List UInt8)) : String :=
  (fieldValues (asBytes "event") frame).foldl (fun _ value => Utf8.lossy value) event

def appendData (data : String) (value : List UInt8) : String :=
  data ++ (if data = "" then "" else "\n") ++ Utf8.lossy value

def dataAfter (data : String) (frame : List (List UInt8)) : String :=
  (fieldValues (asBytes "data") frame).foldl appendData data

theorem fieldValues_cons (name line : List UInt8) (frame : List (List UInt8)) :
    fieldValues name (line :: frame) = fieldValues name [line] ++ fieldValues name frame := by
  simp only [fieldValues, List.filterMap_cons, List.filterMap_nil]
  split <;> rfl

theorem fieldValues_of_eq {name line : List UInt8} (h : (splitField line).1 = name) :
    fieldValues name [line] = [(splitField line).2] := by
  simp [fieldValues, h]

theorem fieldValues_of_ne {name line : List UInt8} (h : (splitField line).1 ≠ name) :
    fieldValues name [line] = [] := by
  simp [fieldValues, h]

theorem eventAfter_cons (event : String) (line : List UInt8) (frame : List (List UInt8)) :
    eventAfter event (line :: frame) = eventAfter (eventAfter event [line]) frame := by
  rw [eventAfter, fieldValues_cons, List.foldl_append]
  rfl

theorem dataAfter_cons (data : String) (line : List UInt8) (frame : List (List UInt8)) :
    dataAfter data (line :: frame) = dataAfter (dataAfter data [line]) frame := by
  rw [dataAfter, fieldValues_cons, List.foldl_append]
  rfl

theorem appendData_eq_empty_iff (data : String) (value : List UInt8) :
    appendData data value = "" ↔ data = "" ∧ value = [] := by
  by_cases hdata : data = ""
  · simp [appendData, hdata, Utf8.lossy_eq_empty_iff]
  · simp [appendData, hdata]

theorem eventAfter_eq_empty_iff (frame : List (List UInt8)) :
    eventAfter "" frame = "" ↔ (fieldValues (asBytes "event") frame).getLast?.getD [] = [] := by
  rw [eventAfter]
  rcases List.eq_nil_or_concat (fieldValues (asBytes "event") frame) with h | ⟨vs, v, h⟩
  · simp [h]
  · simp [h, Utf8.lossy_eq_empty_iff]

theorem dataAfter_eq_empty_iff (data : String) (frame : List (List UInt8)) :
    dataAfter data frame = "" ↔
      data = "" ∧ ∀ value ∈ fieldValues (asBytes "data") frame, value = [] := by
  rw [dataAfter]
  induction fieldValues (asBytes "data") frame generalizing data with
  | nil => simp
  | cons v vs ih => rw [List.foldl_cons, ih, appendData_eq_empty_iff, List.forall_mem_cons, and_assoc]

theorem silent_iff (frame : List (List UInt8)) :
    Silent frame ↔ eventAfter "" frame = "" ∧ dataAfter "" frame = "" := by
  rw [Silent, eventAfter_eq_empty_iff, dataAfter_eq_empty_iff]
  simp

namespace Scanner

theorem splitField_comment {line : List UInt8} (h : line.head? = some colon) :
    (splitField line).1 = [] := by
  obtain ⟨rest, rfl⟩ := List.head?_eq_some_iff.mp h
  simp [splitField, List.findIdx?_cons]

theorem applyField_eq (s : Scanner) (line : List UInt8) :
    s.applyField line =
      s.withFrame (eventAfter s.curEvent [line]) (dataAfter s.curData [line]) s.curSize := by
  by_cases he : (splitField line).1 = asBytes "event"
  · have hd : (splitField line).1 ≠ asBytes "data" := by rw [he]; decide
    rw [applyField_event he, eventAfter, dataAfter, fieldValues_of_eq he, fieldValues_of_ne hd]
    rfl
  by_cases hd : (splitField line).1 = asBytes "data"
  · rw [applyField_data hd, eventAfter, dataAfter, fieldValues_of_ne he, fieldValues_of_eq hd]
    rfl
  · rw [applyField_unknown he hd, eventAfter, dataAfter, fieldValues_of_ne he, fieldValues_of_ne hd]
    rfl

/-- A non-blank line within the cap. -/
theorem consumeLine_nonBlank {s : Scanner} {line : List UInt8} (hne : line ≠ [])
    (h : s.curSize + countedBytes line ≤ maxSseFrameBytes) :
    consumeLine s line = (.ok none, s.withFrame (eventAfter s.curEvent [line])
      (dataAfter s.curData [line]) (s.curSize + countedBytes line)) := by
  by_cases hc : line.head? = some colon
  · have he : (splitField line).1 ≠ asBytes "event" := by rw [splitField_comment hc]; decide
    have hd : (splitField line).1 ≠ asBytes "data" := by rw [splitField_comment hc]; decide
    have happly := applyField_eq s line
    rw [applyField_unknown he hd] at happly
    rw [consumeLine_comment hc, countedBytes, if_pos hc, Nat.add_zero, ← happly]
  · rw [countedBytes, if_neg hc] at h ⊢
    rw [consumeLine_field hne hc h, applyField_eq]
    rfl

/-- A group within the cap emits nothing and only updates the frame in progress. -/
theorem consumeLines_group {s : Scanner} {frame : List (List UInt8)} (hframe : NonBlank frame)
    (h : s.curSize + frameSize frame ≤ maxSseFrameBytes) :
    consumeLines s frame = ⟨[], s.withFrame (eventAfter s.curEvent frame)
      (dataAfter s.curData frame) (s.curSize + frameSize frame), none⟩ := by
  induction frame generalizing s with
  | nil => rfl
  | cons line frame ih =>
      rw [frameSize_cons] at h
      obtain ⟨hline, hrest⟩ := List.forall_mem_cons.mp hframe
      have hfit : s.curSize + countedBytes line ≤ maxSseFrameBytes := by omega
      rw [consumeLines_cons_ok (consumeLine_nonBlank hline hfit), ih hrest (by
        rw [withFrame_curSize]
        omega)]
      simp only [withFrame_curEvent, withFrame_curData, withFrame_curSize, withFrame_withFrame,
        ← eventAfter_cons s.curEvent line frame, ← dataAfter_cons s.curData line frame,
        frameSize_cons, Nat.add_assoc]
      rfl

/-- After a group, the scanner is idle exactly if the group is silent. -/
theorem idle_withFrame_iff {s : Scanner} (h : s.Idle) (frame : List (List UInt8)) (size : ℕ) :
    (s.withFrame (eventAfter s.curEvent frame) (dataAfter s.curData frame) size).Idle ↔
      Silent frame := by
  rw [silent_iff, Idle, withFrame_curEvent, withFrame_curData, h.1, h.2]

/-- A group over the cap is refused. -/
theorem consumeLines_group_tooLarge {s : Scanner} {frame : List (List UInt8)}
    (hframe : NonBlank frame) (hs : s.curSize ≤ maxSseFrameBytes)
    (h : maxSseFrameBytes < s.curSize + frameSize frame) :
    (consumeLines s frame).stop = some (.frameTooLarge maxSseFrameBytes) := by
  induction frame generalizing s with
  | nil => simp [frameSize] at h; omega
  | cons line frame ih =>
      rw [frameSize_cons] at h
      obtain ⟨hline, hrest⟩ := List.forall_mem_cons.mp hframe
      by_cases hfit : s.curSize + countedBytes line ≤ maxSseFrameBytes
      · rw [consumeLines_cons_ok (consumeLine_nonBlank hline hfit)]
        apply ih hrest
        · exact hfit
        · rw [withFrame_curSize]
          omega
      · have hc : line.head? ≠ some colon := by
          intro hc
          rw [countedBytes, if_pos hc] at hfit
          exact hfit hs
        rw [countedBytes, if_neg hc, not_le] at hfit
        rw [consumeLines_cons_error (consumeLine_tooLarge hline hc hfit)]

end Scanner

end Semantik
