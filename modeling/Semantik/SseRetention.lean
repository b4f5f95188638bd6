import Semantik.SseFrames

/-!
# What the scanner retains

The event and data held by a scanner are at most three times the running size, and the running size
is capped. The raw tail is not: it holds whatever followed the last line terminator. So the memory
held is bounded exactly as far as the server bounds its unterminated lines.
-/

namespace Semantik

theorem splitField_length (line : List UInt8) :
    (splitField line).1.length + (splitField line).2.length ≤ line.length := by
  rw [splitField]
  cases hi : line.findIdx? (· = colon) with
  | none => simp
  | some i =>
      have hlt : i < line.length := (List.findIdx?_eq_some_iff_findIdx_eq.mp hi).1
      simp only [List.length_take]
      split_ifs
      · simp only [List.length_tail, List.length_drop]
        omega
      · simp only [List.length_drop]
        omega

namespace Scanner

def retained (s : Scanner) : ℕ :=
  s.buf.length + s.curEvent.utf8ByteSize + s.curData.utf8ByteSize

/-- The running size is capped and dominates what has been accumulated. -/
structure Charged (s : Scanner) : Prop where
  dominated : s.curEvent.utf8ByteSize + s.curData.utf8ByteSize ≤ 3 * s.curSize
  capped : s.curSize ≤ maxSseFrameBytes

theorem charged_new : Charged new := ⟨Nat.le_refl 0, Nat.zero_le _⟩

theorem applyField_dominated {s : Scanner} {line : List UInt8}
    (h : s.curEvent.utf8ByteSize + s.curData.utf8ByteSize + 3 * line.length ≤ 3 * s.curSize) :
    (s.applyField line).curEvent.utf8ByteSize + (s.applyField line).curData.utf8ByteSize ≤
      3 * s.curSize := by
  have hlen := splitField_length line
  have hlossy := Utf8.lossy_utf8ByteSize_le (splitField line).2
  by_cases he : (splitField line).1 = asBytes "event"
  · rw [applyField_event he, withFrame_curEvent, withFrame_curData]
    omega
  by_cases hd : (splitField line).1 = asBytes "data"
  · have hname : (asBytes "data").length = 4 := by decide
    have hsep : (if s.curData = "" then "" else "\n").utf8ByteSize ≤ 1 := by split_ifs <;> decide
    rw [hd, hname] at hlen
    rw [applyField_data hd, withFrame_curEvent, withFrame_curData, String.utf8ByteSize_append,
      String.utf8ByteSize_append]
    omega
  · rw [applyField_unknown he hd]
    omega

/-- Counting a line makes room for what its field may add. -/
theorem addSize_dominated {s : Scanner}
    (h : s.curEvent.utf8ByteSize + s.curData.utf8ByteSize ≤ 3 * s.curSize) (n : ℕ) :
    (s.addSize n).curEvent.utf8ByteSize + (s.addSize n).curData.utf8ByteSize + 3 * n ≤
      3 * (s.addSize n).curSize := by
  simp only [addSize, withFrame_curEvent, withFrame_curData, withFrame_curSize]
  omega

theorem curSize_applyField (s : Scanner) (line : List UInt8) :
    (s.applyField line).curSize = s.curSize := by
  rw [applyField_eq, withFrame_curSize]

theorem Charged.consumeLine {s s' : Scanner} {line : List UInt8} {o : Option Frame}
    (h : Charged s) (hline : consumeLine s line = (.ok o, s')) : Charged s' := by
  rcases consumeLine_cases s line with ⟨-, -, h'⟩ | ⟨-, -, h'⟩ | ⟨-, h'⟩ | ⟨-, -, -, h'⟩ |
    ⟨-, -, hfit, h'⟩
  · rw [h'] at hline; cases hline; exact h
  · rw [h'] at hline; cases hline; exact ⟨Nat.le_refl 0, Nat.zero_le _⟩
  · rw [h'] at hline; cases hline; exact h
  · rw [h'] at hline; cases hline
  · rw [h'] at hline
    cases hline
    have hdom := applyField_dominated (addSize_dominated h.dominated line.length)
    have hsize := curSize_applyField (s.addSize line.length) line
    refine ⟨?_, ?_⟩
    · rw [hsize]
      exact hdom
    · rw [hsize]
      exact hfit

theorem Charged.consumeLines {s : Scanner} (h : Charged s) {lines : List (List UInt8)}
    (hstop : (consumeLines s lines).stop = none) : Charged (consumeLines s lines).state := by
  apply Transducer.run_invariant Charged ?_ h hstop
  intro t line o t' ht hstep
  cases hline : (Scanner.consumeLine t line).1 with
  | error e => rw [lineStep, hline] at hstep; cases hstep
  | ok o' =>
      obtain rfl : (Scanner.consumeLine t line).2 = t' := congrArg Prod.snd hstep
      exact ht.consumeLine (Prod.ext hline rfl)

/-- The counter bounds what has been accumulated after every run of successful calls. -/
theorem charged_feedAll {chunks : List (List UInt8)} (h : (feedAll new chunks).stop = none) :
    Charged (feedAll new chunks).state := by
  have hlines := charged_new.consumeLines ((feedAll_stop chunks).symm.trans h)
  rw [(feedAll_of_stop h).2]
  exact ⟨hlines.dominated, hlines.capped⟩

end Scanner

open Scanner

/-- A sequence of successful feed calls with chunks of at most `c` bytes. -/
structure OkRun (c : ℕ) where
  chunks : List (List UInt8)
  ok : (feedAll new chunks).stop = none
  chunk_le : ∀ chunk ∈ chunks, chunk.length ≤ c

namespace OkRun

variable {c : ℕ} (run : OkRun c)

def state : Scanner := (feedAll new run.chunks).state

/-- The bytes received after the last line terminator, a carriage return in last position
included. -/
def tail : List UInt8 := (openLines run.chunks.flatten).2

theorem buf_state : run.state.buf = run.tail := by
  rw [state, (feedAll_of_stop run.ok).2]
  rfl

theorem charged_state : Charged run.state := charged_feedAll run.ok

theorem tail_le_retained : run.tail.length ≤ run.state.retained := by
  rw [retained, buf_state]
  omega

theorem retained_le : run.state.retained ≤ run.tail.length + 3 * maxSseFrameBytes := by
  have hdom := run.charged_state.dominated
  have hcap := run.charged_state.capped
  rw [retained, buf_state]
  omega

end OkRun

/-- What a scanner retains is bounded by a constant plus the chunk size exactly on the runs whose
unterminated tail is. If no more than one cap and one chunk follow the last terminator, four caps
and one chunk bound all that is retained. -/
theorem retained_le_iff_tail_le (runs : ∀ c, Set (OkRun c)) :
    ((∃ bound, ∀ c, ∀ run ∈ runs c, run.state.retained ≤ bound + c) ↔
      ∃ bound, ∀ c, ∀ run ∈ runs c, run.tail.length ≤ bound + c) ∧
    ((∀ c, ∀ run ∈ runs c, run.tail.length ≤ maxSseFrameBytes + c) →
      ∀ c, ∀ run ∈ runs c, run.state.retained ≤ 4 * maxSseFrameBytes + c) := by
  refine ⟨⟨?_, ?_⟩, ?_⟩
  · intro hbounded
    obtain ⟨bound, h⟩ := hbounded
    exact ⟨bound, fun c run hrun => run.tail_le_retained.trans (h c run hrun)⟩
  · intro hbounded
    obtain ⟨bound, h⟩ := hbounded
    refine ⟨bound + 3 * maxSseFrameBytes, fun c run hrun => ?_⟩
    have htail := h c run hrun
    have hret := run.retained_le
    omega
  · intro h c run hrun
    have htail := h c run hrun
    have hret := run.retained_le
    omega

theorem openLines_endless (n : ℕ) :
    openLines (List.replicate n [0x61]).flatten = ([], List.replicate n 0x61) := by
  have hflat : (List.replicate n [(0x61 : UInt8)]).flatten = List.replicate n 0x61 := by simp
  rw [hflat]
  apply LineSplit.splitOpen_unterminated
  · intro h
    exact absurd (List.eq_of_mem_replicate h) (by decide)
  · intro h
    exact absurd (List.eq_of_mem_replicate h) (by decide)

/-- A line of `n` bytes that never ends, fed one byte at a time. -/
def endlessLine (n : ℕ) : OkRun 1 where
  chunks := List.replicate n [0x61]
  ok := by
    rw [feedAll_stop, openLines_endless]
    rfl
  chunk_le := by
    intro chunk hchunk
    rw [List.eq_of_mem_replicate hchunk]
    rfl

/-- A server that never ends a line is buffered without limit. -/
theorem retained_unbounded : ¬ ∃ bound, ∀ c (run : OkRun c), run.state.retained ≤ bound + c := by
  intro hbounded
  obtain ⟨bound, h⟩ := hbounded
  have hret := (endlessLine (bound + 2)).tail_le_retained.trans (h 1 (endlessLine (bound + 2)))
  have htail : (endlessLine (bound + 2)).tail = List.replicate (bound + 2) 0x61 :=
    congrArg Prod.snd (openLines_endless (bound + 2))
  rw [htail, List.length_replicate] at hret
  omega

end Semantik
