import Semantik.SseLines

/-!
# Chunking invariance of the scanner

`scan` feeds a list of chunks to a fresh scanner and closes it. `referenceFrames` splits the whole
stream into lines, applies `consumeLine` to each, and flushes once at the end. However a stream is
cut, `scan` fails on all cuttings or returns the reference frames on all of them.
-/

namespace Semantik

namespace Scanner

/-- All frames of the calls `feed chunk₁, .., feed chunkₙ, close`, or the error of the first call
that failed. -/
def scan (chunks : List (List UInt8)) : Except ScanError (List Frame) :=
  match (feedAll new chunks).stop with
  | some e => .error e
  | none => ((close (feedAll new chunks).state).1.map Option.toList).map
      ((feedAll new chunks).out ++ ·)

def flush (s : Scanner) : Option Frame := if s.Idle then none else some s.takeFrame.1

/-- All lines of a complete stream: a non-empty unterminated tail is a last line. -/
def allLines (stream : List UInt8) : List (List UInt8) :=
  (splitLines stream).1 ++ if (splitLines stream).2 = [] then [] else [(splitLines stream).2]

/-- The frames of a complete stream: `consumeLine` on each line in order, then one flush. -/
def referenceFrames (stream : List UInt8) : List Frame :=
  (consumeLines new (allLines stream)).out ++
    (flush (consumeLines new (allLines stream)).state).toList

def tailLines (tail : List UInt8) : List (List UInt8) :=
  if tail = [] then [] else [(stripTrailingCr tail).1]

theorem allLines_eq (stream : List UInt8) :
    allLines stream = (openLines stream).1 ++ tailLines (openLines stream).2 := by
  have hsplit := LineSplit.split_eq cr_ne_lf stream
  by_cases hcr : (openLines stream).2.getLast? = some cr
  · have hne : (openLines stream).2 ≠ [] := by intro hnil; simp [hnil] at hcr
    rw [if_pos hcr] at hsplit
    rw [allLines, splitLines, hsplit, tailLines, if_neg hne, stripTrailingCr, if_pos hcr]
    simp
  · rw [if_neg hcr] at hsplit
    rw [allLines, splitLines, hsplit, tailLines, stripTrailingCr, if_neg hcr]

theorem idle_of_consumeLine_some {s s' : Scanner} {line : List UInt8} {frame : Frame}
    (h : consumeLine s line = (.ok (some frame), s')) : s'.Idle := by
  rcases consumeLine_cases s line with ⟨-, -, h'⟩ | ⟨-, -, h'⟩ | ⟨-, h'⟩ | ⟨-, -, -, h'⟩ |
    ⟨-, -, -, h'⟩
  · rw [h'] at h; cases h
  · rw [h'] at h; cases h; exact ⟨rfl, rfl⟩
  · rw [h'] at h; cases h
  · rw [h'] at h; cases h
  · rw [h'] at h; cases h

theorem closeTail_eq (s : Scanner) : closeTail s.markClosed =
    if s.buf = [] then (.ok none, s.markClosed)
    else ((consumeLine s (stripTrailingCr s.buf).1).1,
      (consumeLine s (stripTrailingCr s.buf).1).2.markClosed.withBuf [] s.pendingCr) := by
  have hmark := bookkeeping_markClosed.consumeLine s (stripTrailingCr s.buf).1
  have hbuf := (bookkeeping_withBuf [] s.pendingCr).consumeLine s.markClosed
    (stripTrailingCr s.buf).1
  rw [hmark] at hbuf
  exact congrArg (fun r => if s.buf = [] then (.ok none, s.markClosed) else r) hbuf

theorem flush_eq (s : Scanner) : (if s.curEvent ≠ "" ∨ s.curData ≠ "" then
    (.ok (some s.takeFrame.1), s.takeFrame.2) else (.ok none, s) :
      Except ScanError (Option Frame) × Scanner).1 = .ok s.flush := by
  by_cases hi : s.Idle
  · have hne : ¬ (s.curEvent ≠ "" ∨ s.curData ≠ "") := by
      intro h
      cases h with
      | inl h => exact h hi.1
      | inr h => exact h hi.2
    rw [if_neg hne, flush, if_pos hi]
  · have hor : s.curEvent ≠ "" ∨ s.curData ≠ "" := by
      rwa [Idle, not_and_or] at hi
    rw [if_pos hor, flush, if_neg hi]

/-- Closing runs the line of the tail, then flushes. -/
theorem close_eq {s : Scanner} (h : s.closed = false) :
    (close s).1.map Option.toList = match (consumeLines s (tailLines s.buf)).stop with
      | some e => .error e
      | none => .ok ((consumeLines s (tailLines s.buf)).out ++
          (flush (consumeLines s (tailLines s.buf)).state).toList) := by
  rw [close, h, closeTail_eq]
  by_cases hnil : s.buf = []
  · simp only [Bool.false_eq_true, if_false, if_pos hnil, tailLines]
    exact congrArg (Except.map Option.toList) (flush_eq s.markClosed)
  · simp only [Bool.false_eq_true, if_false, if_neg hnil, tailLines]
    rcases hline : consumeLine s (stripTrailingCr s.buf).1 with ⟨e | o, s'⟩
    · rw [consumeLines_cons_error hline]
      rfl
    · rw [consumeLines_cons_ok hline]
      cases o with
      | some frame =>
          have hflush : flush s' = none := if_pos (idle_of_consumeLine_some hline)
          simp [consumeLines, hflush, Except.map]
      | none =>
          exact congrArg (Except.map Option.toList)
            (flush_eq (s'.markClosed.withBuf [] s.pendingCr))

theorem closed_close (s : Scanner) : s.close.2.closed = true := by
  have htail : (closeTail s.markClosed).2.closed = true := by
    rw [closeTail_eq]
    split_ifs <;> rfl
  unfold close
  split_ifs with h
  · exact h
  · rcases hc : closeTail s.markClosed with ⟨e | _ | frame, s'⟩
    · rw [hc] at htail
      exact htail
    · rw [hc] at htail
      dsimp only
      split_ifs <;> exact htail
    · rw [hc] at htail
      exact htail

theorem closed_consumeLines {s : Scanner} {lines : List (List UInt8)}
    (h : (consumeLines s lines).stop = none) : (consumeLines s lines).state.closed = s.closed := by
  apply Transducer.run_invariant (fun t => t.closed = s.closed) ?_ rfl h
  intro t line o t' ht hstep
  obtain ⟨event, data, size, hline⟩ := consumeLine_eq_withFrame t line
  obtain rfl : (consumeLine t line).2 = t' := congrArg Prod.snd hstep
  rw [hline]
  exact ht

/-- Scanning any cutting of a stream is running over all its lines and flushing. -/
theorem scan_eq (chunks : List (List UInt8)) :
    scan chunks = match (consumeLines new (allLines chunks.flatten)).stop with
      | some e => .error e
      | none => .ok (referenceFrames chunks.flatten) := by
  have hstop := feedAll_stop chunks
  rw [scan, referenceFrames, allLines_eq]
  cases hlines : (consumeLines new (openLines chunks.flatten).1).stop with
  | some e => rw [hstop, hlines, consumeLines_append_of_stop hlines, hlines]
  | none =>
      obtain ⟨hout, hstate⟩ := feedAll_of_stop (hstop.trans hlines)
      have hclosed : (feedAll new chunks).state.closed = false := by
        rw [hstate]
        exact closed_consumeLines hlines
      have hclose := close_eq hclosed
      rw [hstate, withBuf_buf, consumeLines_withBuf, ← hstate] at hclose
      rw [hstop, hlines, consumeLines_append hlines]
      simp only [hclose, hout]
      cases (consumeLines (consumeLines new (openLines chunks.flatten).1).state
        (tailLines (openLines chunks.flatten).2)).stop with
      | some e => rfl
      | none => simp only [Except.map, List.append_assoc]; rfl

def Cutting (stream : List UInt8) := { chunks : List (List UInt8) // chunks.flatten = stream }

theorem stop_eq_frameTooLarge {s : Scanner} {lines : List (List UInt8)} {e : ScanError}
    (h : (consumeLines s lines).stop = some e) : e = .frameTooLarge maxSseFrameBytes := by
  obtain ⟨pre, line, post, -, -, hstep, -⟩ := Transducer.exists_of_run_stop h
  rcases consumeLine_cases (Transducer.run lineStep s pre).state line with ⟨-, -, h'⟩ | ⟨-, -, h'⟩ |
    ⟨-, h'⟩ | ⟨-, -, -, h'⟩ | ⟨-, -, -, h'⟩ <;> rw [lineStep, h'] at hstep <;> cases hstep
  rfl

/-- Chunking invariance: the scanner fails on every cutting of a stream, or returns on every cutting
the frames of the reference parse. -/
theorem scan_cutting (stream : List UInt8) :
    (∀ chunks : Cutting stream, scan chunks.1 = .error (.frameTooLarge maxSseFrameBytes)) ∨
      (∀ chunks : Cutting stream, scan chunks.1 = .ok (referenceFrames stream)) := by
  cases hstop : (consumeLines new (allLines stream)).stop with
  | some e =>
      apply Or.inl
      rintro ⟨chunks, rfl⟩
      rw [scan_eq, hstop, stop_eq_frameTooLarge hstop]
  | none =>
      apply Or.inr
      rintro ⟨chunks, rfl⟩
      rw [scan_eq, hstop]

end Scanner

end Semantik
