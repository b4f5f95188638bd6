import Semantik.Lib.LineSplit
import Semantik.Lib.Transducer
import Semantik.Lib.Utf8
import Semantik.Limits
import Semantik.RustStd

/-!
# The incremental SSE scanner

The scanner of the subscribe stream: it is fed byte chunks, keeps an unparsed tail and the frame in
progress, and yields the frames that became complete. A call returns its result together with the
scanner it leaves behind, also when it fails.
-/

namespace Semantik

structure Frame where
  event : String
  data : String
deriving DecidableEq, Repr

structure Scanner where
  buf : List UInt8 := []
  curEvent : String := ""
  curData : String := ""
  curSize : ℕ := 0
  pendingCr : Bool := false
  closed : Bool := false
deriving DecidableEq, Repr

inductive ScanError where
  | frameTooLarge (max : ℕ)
deriving DecidableEq, Repr

abbrev lf : UInt8 := 0x0A

abbrev cr : UInt8 := 0x0D

abbrev colon : UInt8 := 0x3A

abbrev space : UInt8 := 0x20

def stripTrailingCr (line : List UInt8) : List UInt8 × Bool :=
  if line.getLast? = some cr then (line.dropLast, true) else (line, false)

/-- The loop of `nextLine` over `data`, at index `i` with `rest` still to be looked at. -/
def nextLineFrom (data : List UInt8) (atEof : Bool) : ℕ → List UInt8 → Option (List UInt8 × ℕ)
  | _, [] => if atEof then some (data, data.length) else none
  | i, b :: rest =>
    if b = lf then some (data.take i, i + 1)
    else if b = cr then
      match rest with
      | b' :: _ => if b' = lf then some (data.take i, i + 2) else some (data.take i, i + 1)
      | [] => if atEof then some (data.take i, i + 1) else none
    else nextLineFrom data atEof (i + 1) rest

/-- The next line of `data` and how far to advance, or `none` if more bytes are needed. -/
def nextLine (data : List UInt8) (priorCr atEof : Bool) : Option (List UInt8 × ℕ) :=
  if priorCr && data.head? == some lf then some ([], 1) else nextLineFrom data atEof 0 data

/-- Field name and value of a line. One space after the colon is dropped; a line without a colon is
all field name. -/
def splitField (line : List UInt8) : List UInt8 × List UInt8 :=
  match line.findIdx? (· = colon) with
  | some i =>
    let value := line.drop (i + 1)
    (line.take i, if value.head? = some space then value.tail else value)
  | none => (line, [])

namespace Scanner

def new : Scanner := {}

def withBuf (s : Scanner) (buf : List UInt8) (pendingCr : Bool) : Scanner := { s with buf, pendingCr }

def markClosed (s : Scanner) : Scanner := { s with closed := true }

def takeFrame (s : Scanner) : Frame × Scanner :=
  (⟨s.curEvent, s.curData⟩, { s with curEvent := "", curData := "", curSize := 0 })

def applyField (s : Scanner) (line : List UInt8) : Scanner :=
  let (field, value) := splitField line
  if field = asBytes "event" then { s with curEvent := Utf8.lossy value }
  else if field = asBytes "data" then
    let sep := if s.curData = "" then "" else "\n"
    { s with curData := s.curData ++ sep ++ Utf8.lossy value }
  else s

def consumeLine (s : Scanner) (line : List UInt8) : Except ScanError (Option Frame) × Scanner :=
  if line = [] then
    -- frame terminator, skipped between empty frames
    if s.curEvent = "" ∧ s.curData = "" then (.ok none, s)
    else (.ok (some s.takeFrame.1), s.takeFrame.2)
  else if line.head? = some colon then (.ok none, s)
  else
    let s := { s with curSize := s.curSize + line.length }
    if s.curSize > maxSseFrameBytes then (.error (.frameTooLarge maxSseFrameBytes), s)
    else (.ok none, s.applyField line)

/-- The loop of `feed`. Every round drains at least one byte, so `buf.length + 1` rounds suffice. -/
def feedLoop : ℕ → Scanner → List Frame → Except ScanError (List Frame) × Scanner
  | 0, s, out => (.ok out, s)
  | fuel + 1, s, out =>
    match nextLine s.buf s.pendingCr false with
    | none => (.ok out, s)
    | some (line, advance) =>
      match consumeLine (s.withBuf (s.buf.drop advance) false) line with
      | (.error e, s') => (.error e, s')
      | (.ok none, s') => feedLoop fuel s' out
      | (.ok (some frame), s') => feedLoop fuel s' (out ++ [frame])

/-- Feed a chunk and yield the frames that became complete. -/
def feed (s : Scanner) (chunk : List UInt8) : Except ScanError (List Frame) × Scanner :=
  let s := s.withBuf (s.buf ++ chunk) s.pendingCr
  match feedLoop (s.buf.length + 1) s [] with
  | (.error e, s') => (.error e, s')
  -- a trailing CR may be a line break or half of a CRLF: remember it for the next call
  | (.ok out, s') => (.ok out, s'.withBuf s'.buf (s'.buf.getLast? == some cr))

/-- The tail is a last line. A CR at its end is a line break. -/
def closeTail (s : Scanner) : Except ScanError (Option Frame) × Scanner :=
  if s.buf = [] then (.ok none, s)
  else consumeLine (s.withBuf [] s.pendingCr) (stripTrailingCr s.buf).1

/-- Signal end of stream. Returns the last frame if anything was accumulated. -/
def close (s : Scanner) : Except ScanError (Option Frame) × Scanner :=
  if s.closed then (.ok none, s)
  else
    match closeTail s.markClosed with
    | (.error e, s') => (.error e, s')
    | (.ok (some frame), s') => (.ok (some frame), s')
    | (.ok none, s') =>
      if s'.curEvent ≠ "" ∨ s'.curData ≠ "" then (.ok (some s'.takeFrame.1), s'.takeFrame.2)
      else (.ok none, s')

end Scanner

end Semantik
