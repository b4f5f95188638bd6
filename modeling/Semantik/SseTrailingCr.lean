import Semantik.SseJoining

/-!
# A carriage return in last position

A carriage return ends a line, whether or not a line feed follows. The scanner does not act on one in
last position before the next byte arrives. So a frame whose blank line ends in such a carriage
return is complete, and is not yet yielded.
-/

namespace Semantik

namespace Scanner

/-- The frames of a stream whose blank line lies within it. -/
def framesWithin (stream : List UInt8) : List Frame :=
  (consumeLines new (splitLines stream).1).out

/-- The stream ends in a blank line that a bare carriage return ends, after a frame with an event or
data. -/
def EndsInBareCr (stream : List UInt8) : Prop :=
  (openLines stream).2 = [cr] ∧ ¬ Silent (openGroup (openLines stream).1)

theorem consumeLines_singleton_out (s : Scanner) (line : List UInt8) :
    (consumeLines s [line]).out = [] ↔ ¬ (line = [] ∧ ¬ s.Idle) := by
  rcases consumeLine_cases s line with ⟨rfl, hi, h⟩ | ⟨rfl, hi, h⟩ | ⟨hc, h⟩ | ⟨hne, -, -, h⟩ |
    ⟨hne, -, -, h⟩
  · rw [consumeLines_cons_ok h]
    simp [consumeLines, hi]
  · rw [consumeLines_cons_ok h]
    simp [hi]
  · have hne : line ≠ [] := by
      intro hnil
      rw [hnil] at hc
      cases hc
    rw [consumeLines_cons_ok h]
    simp [consumeLines, hne]
  · rw [consumeLines_cons_error h]
    simp [hne]
  · rw [consumeLines_cons_ok h]
    simp [consumeLines, hne]

/-- The lines of a stream that ends here, in terms of those of a stream that may go on. -/
theorem splitLines_eq (stream : List UInt8) :
    (splitLines stream).1 = (openLines stream).1 ++
      if (openLines stream).2.getLast? = some cr then [(openLines stream).2.dropLast] else [] := by
  rw [splitLines, LineSplit.split_eq cr_ne_lf]
  split_ifs
  · rfl
  · rw [List.append_nil]

theorem dropLast_eq_nil_iff {tail : List UInt8} (h : tail.getLast? = some cr) :
    tail.dropLast = [] ↔ tail = [cr] := by
  constructor
  · intro hnil
    rw [← List.dropLast_append_getLast? cr h, hnil]
    rfl
  · intro htail
    rw [htail]
    rfl

/-- A line feed that follows a carriage return in last position adds no line: whatever comes next,
the frames are those of the lines up to the carriage return and of the lines after the line feed. -/
def LineFeedJoins (chunks : List (List UInt8)) : Prop :=
  chunks.flatten.getLast? = some cr → ∀ more, (feedAll new (chunks ++ [lf] :: more)).stop = none →
    (feedAll new (chunks ++ [lf] :: more)).out =
      (consumeLines new ((splitLines chunks.flatten).1 ++ (openLines more.flatten).1)).out

theorem lineFeedJoins (chunks : List (List UInt8)) : LineFeedJoins chunks := by
  intro hcr more hmore
  rw [(feedAll_of_stop hmore).1]
  have hflatten : (chunks ++ [lf] :: more).flatten = chunks.flatten ++ lf :: more.flatten := by
    rw [List.flatten_append, List.flatten_cons]
    rfl
  have hlines := LineSplit.splitOpen_append_lf cr_ne_lf hcr more.flatten
  rw [hflatten, openLines, hlines]

/-- After successful calls, the frames yielded so far are all that the bytes so far complete, except
when these end in a bare carriage return that completes one. Either way, a line feed that follows it
adds no line. -/
theorem feed_prompt_iff {chunks : List (List UInt8)} (h : (feedAll new chunks).stop = none) :
    (feedAll new chunks).out = framesWithin chunks.flatten ∧ LineFeedJoins chunks ↔
      ¬ EndsInBareCr chunks.flatten := by
  rw [and_iff_left (lineFeedJoins chunks)]
  have hlines := (feedAll_stop chunks).symm.trans h
  have hidle := (consumeLines_groups ⟨rfl, rfl⟩ (Nat.zero_le _) hlines).2
  rw [(feedAll_of_stop h).1, framesWithin, splitLines_eq, consumeLines_append hlines, List.self_eq_append_right,
    EndsInBareCr, ← hidle]
  split_ifs with hcr
  · rw [consumeLines_singleton_out, dropLast_eq_nil_iff hcr]
  · have hne : (openLines chunks.flatten).2 ≠ [cr] := by
      intro htail
      rw [htail] at hcr
      exact hcr rfl
    exact iff_of_true rfl (fun hends => hne hends.1)

theorem feed_prompt_iff_sample :
    (feedAll new [asBytes "data: x\r\n", asBytes "\r\n"]).stop = none ∧
      ((feedAll new [asBytes "data: x\r\n", asBytes "\r\n"]).out =
            framesWithin [asBytes "data: x\r\n", asBytes "\r\n"].flatten ∧
          LineFeedJoins [asBytes "data: x\r\n", asBytes "\r\n"] ↔
        ¬ EndsInBareCr [asBytes "data: x\r\n", asBytes "\r\n"].flatten) :=
  ⟨by rfl, feed_prompt_iff (by rfl)⟩

def bareCrFrame : List UInt8 := asBytes "event: match\rdata: x\r\r"

/-- It is one frame, and it is not yielded. -/
theorem not_prompt_bareCrFrame : (feedAll new [bareCrFrame]).stop = none ∧
    ¬ ((feedAll new [bareCrFrame]).out = framesWithin [bareCrFrame].flatten ∧
      LineFeedJoins [bareCrFrame]) := by
  have hyielded : (feedAll new [bareCrFrame]).out = [] := by rfl
  have hwithin : framesWithin [bareCrFrame].flatten = [⟨"match", "x"⟩] := by rfl
  refine ⟨by rfl, ?_⟩
  intro h
  have hout := h.1
  rw [hyielded, hwithin] at hout
  cases hout

end Scanner

end Semantik
