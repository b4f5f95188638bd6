import Semantik.SseRetention

/-!
# How large a frame can get

The byte counter is capped and dominates the event and data of the frame in progress. An oversized
line adds to the counter but not to the frame, so no frame that a scanner ever yields holds more than
three times the cap, also when it is used on after a call that failed.
-/

namespace Semantik

def Frame.size (frame : Frame) : ℕ := frame.event.utf8ByteSize + frame.data.utf8ByteSize

inductive ScannerCall where
  | feed (chunk : List UInt8)
  | close

namespace Scanner

def call (s : Scanner) : ScannerCall → Except ScanError (List Frame) × Scanner
  | .feed chunk => s.feed chunk
  | .close => (s.close.1.map Option.toList, s.close.2)

/-- The results of a sequence of calls. The scanner is used on after a call that failed. -/
def callAll (s : Scanner) : List ScannerCall → List (Except ScanError (List Frame)) × Scanner
  | [] => ([], s)
  | c :: calls => ((s.call c).1 :: (callAll (s.call c).2 calls).1, (callAll (s.call c).2 calls).2)

/-- The frame in progress is within three times the counter and three times the cap. -/
structure Held (s : Scanner) : Prop where
  dominated : s.curEvent.utf8ByteSize + s.curData.utf8ByteSize ≤ 3 * s.curSize
  held : s.curEvent.utf8ByteSize + s.curData.utf8ByteSize ≤ 3 * maxSseFrameBytes

theorem held_new : Held new := ⟨Nat.zero_le _, Nat.zero_le _⟩

theorem Held.withBuf {s : Scanner} (h : Held s) (b : List UInt8) (p : Bool) : Held (s.withBuf b p) :=
  ⟨h.dominated, h.held⟩

theorem Held.takeFrame {s : Scanner} (h : Held s) :
    s.takeFrame.1.size ≤ 3 * maxSseFrameBytes ∧ Held s.takeFrame.2 :=
  ⟨h.held, Nat.zero_le _, Nat.zero_le _⟩

/-- Every line keeps the bounds, and the frame it may emit is within them. -/
theorem Held.consumeLine {s : Scanner} (h : Held s) (line : List UInt8) :
    Held (consumeLine s line).2 ∧ ∀ frame, (consumeLine s line).1 = .ok (some frame) →
      frame.size ≤ 3 * maxSseFrameBytes := by
  have hroom := addSize_dominated h.dominated line.length
  rcases consumeLine_cases s line with ⟨-, -, h'⟩ | ⟨-, -, h'⟩ | ⟨-, h'⟩ | ⟨-, -, -, h'⟩ |
    ⟨-, -, hfit, h'⟩
  · rw [h']
    exact ⟨h, by simp⟩
  · rw [h']
    refine ⟨h.takeFrame.2, ?_⟩
    intro frame hframe
    cases hframe
    exact h.takeFrame.1
  · rw [h']
    exact ⟨h, by simp⟩
  · rw [h']
    refine ⟨⟨?_, h.held⟩, by simp⟩
    exact Nat.le_trans (Nat.le_add_right _ _) hroom
  · rw [h']
    have hdom := applyField_dominated hroom
    refine ⟨⟨?_, ?_⟩, by simp⟩
    · rw [curSize_applyField]
      exact hdom
    · exact hdom.trans (Nat.mul_le_mul_left 3 hfit)

theorem Held.feedLoop {s : Scanner} (h : Held s) (fuel : ℕ) (out : List Frame)
    (hout : ∀ frame ∈ out, frame.size ≤ 3 * maxSseFrameBytes) :
    Held (feedLoop fuel s out).2 ∧ ∀ frames, (feedLoop fuel s out).1 = .ok frames →
      ∀ frame ∈ frames, frame.size ≤ 3 * maxSseFrameBytes := by
  induction fuel generalizing s out with
  | zero =>
      refine ⟨h, ?_⟩
      intro frames hframes
      cases hframes
      exact hout
  | succ fuel ih =>
      rw [Scanner.feedLoop]
      cases nextLine s.buf s.pendingCr false with
      | none =>
          refine ⟨h, ?_⟩
          intro frames hframes
          cases hframes
          exact hout
      | some p =>
          obtain ⟨line, advance⟩ := p
          obtain ⟨hstate, hemit⟩ := (h.withBuf (s.buf.drop advance) false).consumeLine line
          dsimp only
          rcases hline : Scanner.consumeLine (s.withBuf (s.buf.drop advance) false) line with
            ⟨e | _ | frame, s'⟩
          · rw [hline] at hstate
            exact ⟨hstate, by simp⟩
          · rw [hline] at hstate
            exact ih hstate out hout
          · rw [hline] at hstate hemit
            apply ih hstate
            intro frame' hmem
            obtain hmem | hmem := List.mem_append.1 hmem
            · exact hout frame' hmem
            · rw [List.mem_singleton.1 hmem]
              exact hemit frame rfl

theorem Held.feed {s : Scanner} (h : Held s) (chunk : List UInt8) :
    Held (feed s chunk).2 ∧ ∀ frames, (feed s chunk).1 = .ok frames →
      ∀ frame ∈ frames, frame.size ≤ 3 * maxSseFrameBytes := by
  obtain ⟨hstate, hemit⟩ := (h.withBuf (s.buf ++ chunk) s.pendingCr).feedLoop
    ((s.buf ++ chunk).length + 1) [] (by simp)
  rw [Scanner.feed, withBuf_buf]
  rcases hloop : Scanner.feedLoop ((s.buf ++ chunk).length + 1)
    (s.withBuf (s.buf ++ chunk) s.pendingCr) [] with ⟨e | out, s'⟩
  · rw [hloop] at hstate
    exact ⟨hstate, by simp⟩
  · rw [hloop] at hstate hemit
    exact ⟨hstate.withBuf _ _, hemit⟩

theorem Held.close {s : Scanner} (h : Held s) :
    Held s.close.2 ∧ ∀ frame, s.close.1 = .ok (some frame) → frame.size ≤ 3 * maxSseFrameBytes := by
  have hmark : Held s.markClosed := ⟨h.dominated, h.held⟩
  have htail : Held (closeTail s.markClosed).2 ∧ ∀ frame,
      (closeTail s.markClosed).1 = .ok (some frame) → frame.size ≤ 3 * maxSseFrameBytes := by
    rw [closeTail]
    split_ifs
    · exact ⟨hmark, by simp⟩
    · exact (hmark.withBuf [] _).consumeLine _
  rw [Scanner.close]
  split_ifs
  · exact ⟨h, by simp⟩
  · rcases hc : closeTail s.markClosed with ⟨e | _ | frame, s'⟩
    · rw [hc] at htail
      exact ⟨htail.1, by simp⟩
    · rw [hc] at htail
      dsimp only
      split_ifs
      · refine ⟨htail.1.takeFrame.2, ?_⟩
        intro frame hframe
        cases hframe
        exact htail.1.takeFrame.1
      · exact ⟨htail.1, by simp⟩
    · rw [hc] at htail
      exact htail

theorem Held.call {s : Scanner} (h : Held s) (c : ScannerCall) :
    Held (s.call c).2 ∧ ∀ frames, (s.call c).1 = .ok frames →
      ∀ frame ∈ frames, frame.size ≤ 3 * maxSseFrameBytes := by
  cases c with
  | feed chunk => exact h.feed chunk
  | close =>
      refine ⟨h.close.1, ?_⟩
      intro frames hframes frame hmem
      obtain ⟨o, ho, rfl⟩ : ∃ o, s.close.1 = .ok o ∧ o.toList = frames := by
        simp only [Scanner.call] at hframes
        cases hclose : s.close.1 with
        | error e =>
            rw [hclose] at hframes
            cases hframes
        | ok o =>
            rw [hclose] at hframes
            exact ⟨o, rfl, Except.ok.inj hframes⟩
      rw [Option.mem_toList] at hmem
      rw [Option.mem_def.1 hmem] at ho
      exact h.close.2 frame ho

/-- No call in any sequence yields a larger frame. -/
theorem Held.callAll {s : Scanner} (h : Held s) (calls : List ScannerCall) :
    ∀ frames, .ok frames ∈ (s.callAll calls).1 →
      ∀ frame ∈ frames, frame.size ≤ 3 * maxSseFrameBytes := by
  induction calls generalizing s with
  | nil => simp [Scanner.callAll]
  | cons c calls ih =>
      intro frames hmem
      rw [Scanner.callAll, List.mem_cons] at hmem
      cases hmem with
      | inl hcall => exact (h.call c).2 frames hcall.symm
      | inr hrest => exact ih (h.call c).1 frames hrest

/-- After successful calls the counter is within the cap and dominates what has been accumulated,
and no frame that is ever yielded exceeds three times the cap. -/
theorem counter_dominates :
    (∀ chunks : List (List UInt8), (feedAll new chunks).stop = none →
      (feedAll new chunks).state.curSize ≤ maxSseFrameBytes ∧
      (feedAll new chunks).state.curEvent.utf8ByteSize +
        (feedAll new chunks).state.curData.utf8ByteSize ≤ 3 * (feedAll new chunks).state.curSize) ∧
    ∀ (calls : List ScannerCall) (frames : List Frame), .ok frames ∈ (callAll new calls).1 →
      ∀ frame ∈ frames, frame.event.utf8ByteSize + frame.data.utf8ByteSize ≤
        3 * maxSseFrameBytes := by
  refine ⟨?_, ?_⟩
  · intro chunks h
    have hcharged := charged_feedAll h
    exact ⟨hcharged.capped, hcharged.dominated⟩
  · intro calls frames hmem
    exact held_new.callAll calls frames hmem

end Scanner

end Semantik
