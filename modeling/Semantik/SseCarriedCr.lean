import Semantik.SseLines

/-!
# The carried-over carriage return

With `pendingCr` set, `nextLine` takes a line feed off the front of the buffer and returns an empty
line, which would end the frame in progress. The flag is only ever set while the carriage return is
still in the buffer, and a call that fails leaves it unset. So the branch is dead, whatever the
chunks are and whatever earlier calls returned.
-/

namespace Semantik

/-- `nextLine`, with `none` in place of the branch for a carried-over carriage return. -/
def nextLineChecked (data : List UInt8) (priorCr atEof : Bool) : Option (Option (List UInt8 × ℕ)) :=
  if priorCr && data.head? == some lf then none else some (nextLine data priorCr atEof)

namespace Scanner

/-- The loop of `feed`, with `none` if any of its rounds takes that branch. -/
def feedLoopChecked : ℕ → Scanner → List Frame → Option (Except ScanError (List Frame) × Scanner)
  | 0, s, out => some (.ok out, s)
  | fuel + 1, s, out => do
    match ← nextLineChecked s.buf s.pendingCr false with
    | none => some (.ok out, s)
    | some (line, advance) =>
      match consumeLine (s.withBuf (s.buf.drop advance) false) line with
      | (.error e, s') => some (.error e, s')
      | (.ok none, s') => feedLoopChecked fuel s' out
      | (.ok (some frame), s') => feedLoopChecked fuel s' (out ++ [frame])

def feedChecked (s : Scanner) (chunk : List UInt8) :
    Option (Except ScanError (List Frame) × Scanner) := do
  let s := s.withBuf (s.buf ++ chunk) s.pendingCr
  match ← feedLoopChecked (s.buf.length + 1) s [] with
  | (.error e, s') => some (.error e, s')
  | (.ok out, s') => some (.ok out, s'.withBuf s'.buf (s'.buf.getLast? == some cr))

def afterFeeds (chunks : List (List UInt8)) : Scanner :=
  chunks.foldl (fun s chunk => (s.feed chunk).2) new

theorem carriesCr_new : CarriesCr new := by
  intro hp
  cases hp

/-- Every call sets the flag for the tail that it leaves, or fails and leaves it unset. -/
theorem CarriesCr.feed {s : Scanner} (h : CarriesCr s) (chunk : List UInt8) :
    CarriesCr (s.feed chunk).2 := by
  obtain ⟨herr, hok⟩ := h.feed_eq chunk
  cases hstop : (consumeLines s (openLines (s.buf ++ chunk)).1).stop with
  | none =>
      rw [hok hstop]
      exact (settled_withBuf _ (s.buf ++ chunk)).carriesCr
  | some e =>
      intro hp
      rw [(herr e hstop).2] at hp
      cases hp

theorem nextLineChecked_eq {data : List UInt8} {priorCr : Bool}
    (h : (priorCr && data.head? == some lf) = false) (atEof : Bool) :
    nextLineChecked data priorCr atEof = some (nextLine data priorCr atEof) := by
  rw [nextLineChecked, h]
  rfl

theorem pendingCr_consumeLine (s : Scanner) (line : List UInt8) :
    (consumeLine s line).2.pendingCr = s.pendingCr := by
  obtain ⟨event, data, size, h⟩ := consumeLine_eq_withFrame s line
  rw [h]
  rfl

/-- Every round unsets the flag, so only the first one could take the branch. -/
theorem feedLoopChecked_eq (fuel : ℕ) {s : Scanner} (out : List Frame)
    (h : (s.pendingCr && s.buf.head? == some lf) = false) :
    feedLoopChecked fuel s out = some (feedLoop fuel s out) := by
  induction fuel generalizing s out with
  | zero => rfl
  | succ fuel ih =>
      rw [feedLoopChecked, feedLoop, nextLineChecked_eq h, Option.bind_eq_bind, Option.bind_some]
      rcases nextLine s.buf s.pendingCr false with _ | ⟨line, advance⟩
      · rfl
      · have hpending := pendingCr_consumeLine (s.withBuf (s.buf.drop advance) false) line
        dsimp only
        rcases hline : consumeLine (s.withBuf (s.buf.drop advance) false) line with
          ⟨e | _ | frame, s'⟩
        · rfl
        · rw [hline] at hpending
          exact ih out (by rw [hpending]; rfl)
        · rw [hline] at hpending
          exact ih (out ++ [frame]) (by rw [hpending]; rfl)

theorem CarriesCr.feedChecked_eq {s : Scanner} (h : CarriesCr s) (chunk : List UInt8) :
    feedChecked s chunk = some (s.feed chunk) := by
  have hloop := feedLoopChecked_eq ((s.buf ++ chunk).length + 1) []
    (s := s.withBuf (s.buf ++ chunk) s.pendingCr) (h.not_takes chunk)
  rw [feedChecked, Scanner.feed, withBuf_buf, hloop]
  rcases feedLoop ((s.buf ++ chunk).length + 1) (s.withBuf (s.buf ++ chunk) s.pendingCr) [] with
    ⟨e | out, s'⟩
  · rfl
  · rfl

theorem CarriesCr.foldl_feed {s : Scanner} (h : CarriesCr s) (chunks : List (List UInt8)) :
    CarriesCr (chunks.foldl (fun s chunk => (s.feed chunk).2) s) := by
  induction chunks generalizing s with
  | nil => exact h
  | cons chunk chunks ih => exact ih (h.feed chunk)

theorem carriesCr_afterFeeds (chunks : List (List UInt8)) : CarriesCr (afterFeeds chunks) :=
  carriesCr_new.foldl_feed chunks

-- the flag is set between the two halves of a CRLF
example : (afterFeeds [asBytes "event: subscribed\r"]).pendingCr = true := by decide

/-- After any calls of `feed` the flag is set only while the buffer ends in a carriage return and
has no other terminator, so no round of the next call takes a line feed for the rest of a line that
was already emitted. -/
theorem shortcut_never_taken (chunks : List (List UInt8)) :
    ((afterFeeds chunks).pendingCr = true →
      (afterFeeds chunks).buf ≠ [] ∧ (afterFeeds chunks).buf.getLast? = some cr ∧
        cr ∉ (afterFeeds chunks).buf.dropLast ∧ lf ∉ (afterFeeds chunks).buf.dropLast) ∧
    ∀ chunk, feedChecked (afterFeeds chunks) chunk = some ((afterFeeds chunks).feed chunk) := by
  have hcarries := carriesCr_afterFeeds chunks
  refine ⟨?_, hcarries.feedChecked_eq⟩
  intro hp
  have hends := hcarries hp
  exact ⟨hends.ne_nil, hends.last, hends.cr_notMem, hends.lf_notMem⟩

end Scanner

end Semantik
