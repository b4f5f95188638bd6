import Semantik.Sse

/-!
# The scanner as a consumer of lines

`feed` cuts its buffer into the lines already terminated and runs `consumeLine` over them. Between
two successful calls the buffer holds exactly the unterminated tail of all bytes fed so far.
-/

namespace Semantik

theorem cr_ne_lf : cr ≠ lf := by decide

abbrev splitLines : List UInt8 → List (List UInt8) × List UInt8 := LineSplit.split lf cr

abbrev openLines : List UInt8 → List (List UInt8) × List UInt8 := LineSplit.splitOpen lf cr

theorem openLines_append (s t : List UInt8) :
    openLines (s ++ t) = ((openLines s).1 ++ (openLines ((openLines s).2 ++ t)).1,
      (openLines ((openLines s).2 ++ t)).2) :=
  LineSplit.splitOpen_append cr_ne_lf s t

theorem nextLineFrom_eq_cut (front rest : List UInt8) :
    nextLineFrom (front ++ rest) false front.length rest =
      (LineSplit.cut lf cr rest).map
        (fun p => (front ++ p.1, (front ++ rest).length - p.2.length)) := by
  induction rest generalizing front with
  | nil => simp [nextLineFrom, LineSplit.cut]
  | cons b rest ih =>
      rw [nextLineFrom.eq_def, LineSplit.cut.eq_def]
      by_cases hlf : b = lf
      · simp only [hlf, if_true, List.take_left, List.length_append, List.length_cons,
          Option.map_some, List.append_nil]
        congr 2
        omega
      by_cases hcr : b = cr
      · cases rest with
        | nil => simp [hcr, cr_ne_lf]
        | cons b' rest =>
            by_cases hb' : b' = lf
            · simp [hcr, hb', cr_ne_lf]; omega
            · simp [hcr, hb', cr_ne_lf]; omega
      · have hi := ih (front ++ [b])
        simp only [List.append_assoc, List.singleton_append, List.length_append,
          List.length_singleton] at hi
        simp [hlf, hcr, hi, Function.comp_def]

theorem nextLine_eq_cut (data : List UInt8) :
    nextLine data false false =
      (LineSplit.cut lf cr data).map (fun p => (p.1, data.length - p.2.length)) := by
  simpa [nextLine] using nextLineFrom_eq_cut [] data

namespace Scanner

@[simp] theorem withBuf_buf (s : Scanner) (b : List UInt8) (p : Bool) : (s.withBuf b p).buf = b := rfl

@[simp] theorem withBuf_pendingCr (s : Scanner) (b : List UInt8) (p : Bool) :
    (s.withBuf b p).pendingCr = p := rfl

@[simp] theorem withBuf_curEvent (s : Scanner) (b : List UInt8) (p : Bool) :
    (s.withBuf b p).curEvent = s.curEvent := rfl

@[simp] theorem withBuf_curData (s : Scanner) (b : List UInt8) (p : Bool) :
    (s.withBuf b p).curData = s.curData := rfl

@[simp] theorem withBuf_curSize (s : Scanner) (b : List UInt8) (p : Bool) :
    (s.withBuf b p).curSize = s.curSize := rfl

@[simp] theorem withBuf_closed (s : Scanner) (b : List UInt8) (p : Bool) :
    (s.withBuf b p).closed = s.closed := rfl

@[simp] theorem withBuf_withBuf (s : Scanner) (b b' : List UInt8) (p p' : Bool) :
    (s.withBuf b p).withBuf b' p' = s.withBuf b' p' := rfl

@[simp] theorem withBuf_self (s : Scanner) : s.withBuf s.buf s.pendingCr = s := rfl

def withFrame (s : Scanner) (event data : String) (size : ℕ) : Scanner :=
  { s with curEvent := event, curData := data, curSize := size }

@[simp] theorem withFrame_curEvent (s : Scanner) (e d : String) (n : ℕ) :
    (s.withFrame e d n).curEvent = e := rfl

@[simp] theorem withFrame_curData (s : Scanner) (e d : String) (n : ℕ) :
    (s.withFrame e d n).curData = d := rfl

@[simp] theorem withFrame_curSize (s : Scanner) (e d : String) (n : ℕ) :
    (s.withFrame e d n).curSize = n := rfl

@[simp] theorem withFrame_withFrame (s : Scanner) (e d e' d' : String) (n n' : ℕ) :
    (s.withFrame e d n).withFrame e' d' n' = s.withFrame e' d' n' := rfl

theorem applyField_event {s : Scanner} {line : List UInt8}
    (h : (splitField line).1 = asBytes "event") :
    s.applyField line = s.withFrame (Utf8.lossy (splitField line).2) s.curData s.curSize := by
  simp only [applyField, if_pos h]
  rfl

theorem applyField_data {s : Scanner} {line : List UInt8}
    (h : (splitField line).1 = asBytes "data") :
    s.applyField line = s.withFrame s.curEvent
      (s.curData ++ (if s.curData = "" then "" else "\n") ++ Utf8.lossy (splitField line).2)
      s.curSize := by
  have hne : (splitField line).1 ≠ asBytes "event" := by rw [h]; decide
  simp only [applyField, if_neg hne, if_pos h]
  rfl

theorem applyField_unknown {s : Scanner} {line : List UInt8}
    (h : (splitField line).1 ≠ asBytes "event") (h' : (splitField line).1 ≠ asBytes "data") :
    s.applyField line = s := by
  simp only [applyField, if_neg h, if_neg h']

def Idle (s : Scanner) : Prop := s.curEvent = "" ∧ s.curData = ""

instance (s : Scanner) : Decidable s.Idle := inferInstanceAs (Decidable (_ ∧ _))

def addSize (s : Scanner) (n : ℕ) : Scanner := s.withFrame s.curEvent s.curData (s.curSize + n)

theorem consumeLine_blank_idle {s : Scanner} (h : s.Idle) : consumeLine s [] = (.ok none, s) := by
  rw [consumeLine, if_pos rfl]
  exact if_pos h

theorem consumeLine_blank {s : Scanner} (h : ¬ s.Idle) :
    consumeLine s [] = (.ok (some s.takeFrame.1), s.takeFrame.2) := by
  rw [consumeLine, if_pos rfl]
  exact if_neg h

theorem consumeLine_comment {s : Scanner} {line : List UInt8} (h : line.head? = some colon) :
    consumeLine s line = (.ok none, s) := by
  have hne : line ≠ [] := by
    intro hnil
    rw [hnil] at h
    cases h
  rw [consumeLine, if_neg hne, if_pos h]

theorem consumeLine_tooLarge {s : Scanner} {line : List UInt8} (hne : line ≠ [])
    (hc : line.head? ≠ some colon) (h : maxSseFrameBytes < s.curSize + line.length) :
    consumeLine s line = (.error (.frameTooLarge maxSseFrameBytes), s.addSize line.length) := by
  rw [consumeLine, if_neg hne, if_neg hc]
  exact if_pos h

theorem consumeLine_field {s : Scanner} {line : List UInt8} (hne : line ≠ [])
    (hc : line.head? ≠ some colon) (h : s.curSize + line.length ≤ maxSseFrameBytes) :
    consumeLine s line = (.ok none, (s.addSize line.length).applyField line) := by
  rw [consumeLine, if_neg hne, if_neg hc]
  exact if_neg (Nat.not_lt.mpr h)

/-- Every outcome of `consumeLine`. -/
theorem consumeLine_cases (s : Scanner) (line : List UInt8) :
    (line = [] ∧ s.Idle ∧ consumeLine s line = (.ok none, s)) ∨
    (line = [] ∧ ¬ s.Idle ∧ consumeLine s line = (.ok (some s.takeFrame.1), s.takeFrame.2)) ∨
    (line.head? = some colon ∧ consumeLine s line = (.ok none, s)) ∨
    (line ≠ [] ∧ line.head? ≠ some colon ∧ maxSseFrameBytes < s.curSize + line.length ∧
      consumeLine s line = (.error (.frameTooLarge maxSseFrameBytes), s.addSize line.length)) ∨
    (line ≠ [] ∧ line.head? ≠ some colon ∧ s.curSize + line.length ≤ maxSseFrameBytes ∧
      consumeLine s line = (.ok none, (s.addSize line.length).applyField line)) := by
  by_cases hne : line = []
  · subst hne
    by_cases hi : s.Idle
    · exact Or.inl ⟨rfl, hi, consumeLine_blank_idle hi⟩
    · exact Or.inr (Or.inl ⟨rfl, hi, consumeLine_blank hi⟩)
  by_cases hc : line.head? = some colon
  · exact Or.inr (Or.inr (Or.inl ⟨hc, consumeLine_comment hc⟩))
  by_cases hbig : maxSseFrameBytes < s.curSize + line.length
  · exact Or.inr (Or.inr (Or.inr (Or.inl ⟨hne, hc, hbig, consumeLine_tooLarge hne hc hbig⟩)))
  · have hfit : s.curSize + line.length ≤ maxSseFrameBytes := Nat.not_lt.mp hbig
    exact Or.inr (Or.inr (Or.inr (Or.inr ⟨hne, hc, hfit, consumeLine_field hne hc hfit⟩)))

theorem applyField_eq_withFrame (s : Scanner) (line : List UInt8) :
    ∃ event data, s.applyField line = s.withFrame event data s.curSize := by
  by_cases he : (splitField line).1 = asBytes "event"
  · exact ⟨_, _, applyField_event he⟩
  by_cases hd : (splitField line).1 = asBytes "data"
  · exact ⟨_, _, applyField_data hd⟩
  · exact ⟨s.curEvent, s.curData, applyField_unknown he hd⟩

/-- A line leaves everything but the frame in progress as it was. -/
theorem consumeLine_eq_withFrame (s : Scanner) (line : List UInt8) :
    ∃ event data size, (consumeLine s line).2 = s.withFrame event data size := by
  rcases consumeLine_cases s line with ⟨-, -, h⟩ | ⟨-, -, h⟩ | ⟨-, h⟩ | ⟨-, -, -, h⟩ | ⟨-, -, -, h⟩
  · exact ⟨s.curEvent, s.curData, s.curSize, by rw [h]; rfl⟩
  · exact ⟨"", "", 0, by rw [h]; rfl⟩
  · exact ⟨s.curEvent, s.curData, s.curSize, by rw [h]; rfl⟩
  · exact ⟨s.curEvent, s.curData, s.curSize + line.length, by rw [h]; rfl⟩
  · obtain ⟨event, data, happly⟩ := applyField_eq_withFrame (s.addSize line.length) line
    exact ⟨event, data, s.curSize + line.length, by rw [h, happly]; rfl⟩

structure Bookkeeping (f : Scanner → Scanner) : Prop where
  curEvent : ∀ s, (f s).curEvent = s.curEvent
  curData : ∀ s, (f s).curData = s.curData
  curSize : ∀ s, (f s).curSize = s.curSize
  withFrame : ∀ s e d n, (f s).withFrame e d n = f (s.withFrame e d n)

theorem bookkeeping_withBuf (b : List UInt8) (p : Bool) : Bookkeeping (fun s => s.withBuf b p) :=
  ⟨fun _ => rfl, fun _ => rfl, fun _ => rfl, fun _ _ _ _ => rfl⟩

theorem bookkeeping_markClosed : Bookkeeping markClosed :=
  ⟨fun _ => rfl, fun _ => rfl, fun _ => rfl, fun _ _ _ _ => rfl⟩

section
variable {f : Scanner → Scanner} (hf : Bookkeeping f)
include hf

theorem Bookkeeping.idle_iff (s : Scanner) : (f s).Idle ↔ s.Idle := by
  rw [Idle, Idle, hf.curEvent, hf.curData]

theorem Bookkeeping.takeFrame (s : Scanner) :
    (f s).takeFrame = (s.takeFrame.1, f s.takeFrame.2) := by
  have h : (f s).takeFrame = (⟨(f s).curEvent, (f s).curData⟩, (f s).withFrame "" "" 0) := rfl
  rw [h, hf.curEvent, hf.curData, hf.withFrame]
  rfl

theorem Bookkeeping.addSize (s : Scanner) (n : ℕ) : (f s).addSize n = f (s.addSize n) := by
  rw [Scanner.addSize, hf.curEvent, hf.curData, hf.curSize, hf.withFrame]
  rfl

theorem Bookkeeping.applyField (s : Scanner) (line : List UInt8) :
    (f s).applyField line = f (s.applyField line) := by
  by_cases he : (splitField line).1 = asBytes "event"
  · rw [applyField_event he, applyField_event he, hf.curData, hf.curSize, hf.withFrame]
  by_cases hd : (splitField line).1 = asBytes "data"
  · rw [applyField_data hd, applyField_data hd, hf.curEvent, hf.curData, hf.curSize, hf.withFrame]
  · rw [applyField_unknown he hd, applyField_unknown he hd]

/-- Only the frame in progress matters to `consumeLine`, and only it changes. -/
theorem Bookkeeping.consumeLine (s : Scanner) (line : List UInt8) :
    consumeLine (f s) line = ((consumeLine s line).1, f (consumeLine s line).2) := by
  rcases consumeLine_cases s line with ⟨rfl, hi, h⟩ | ⟨rfl, hi, h⟩ | ⟨hc, h⟩ | ⟨hne, hc, hbig, h⟩ |
    ⟨hne, hc, hfit, h⟩
  · rw [h, consumeLine_blank_idle ((hf.idle_iff s).mpr hi)]
  · rw [h, consumeLine_blank (mt (hf.idle_iff s).mp hi), hf.takeFrame]
  · rw [h, consumeLine_comment hc]
  · rw [h, consumeLine_tooLarge hne hc (by rwa [hf.curSize]), hf.addSize]
  · rw [h, consumeLine_field hne hc (by rwa [hf.curSize]), hf.addSize, hf.applyField]

end

def lineStep (s : Scanner) (line : List UInt8) : Except ScanError (List Frame) × Scanner :=
  ((consumeLine s line).1.map Option.toList, (consumeLine s line).2)

def consumeLines (s : Scanner) (lines : List (List UInt8)) :
    Transducer.Run Scanner ScanError Frame :=
  Transducer.run lineStep s lines

theorem Bookkeeping.consumeLines {f : Scanner → Scanner} (hf : Bookkeeping f) (s : Scanner)
    (lines : List (List UInt8)) :
    consumeLines (f s) lines =
      ⟨(consumeLines s lines).out, f (consumeLines s lines).state, (consumeLines s lines).stop⟩ := by
  apply Transducer.run_map f
  intro t line
  simp only [lineStep, hf.consumeLine]

theorem consumeLines_withBuf (s : Scanner) (b : List UInt8) (p : Bool)
    (lines : List (List UInt8)) :
    consumeLines (s.withBuf b p) lines =
      ⟨(consumeLines s lines).out, (consumeLines s lines).state.withBuf b p,
        (consumeLines s lines).stop⟩ :=
  (bookkeeping_withBuf b p).consumeLines s lines

theorem consumeLines_append {s : Scanner} {lines : List (List UInt8)}
    (h : (consumeLines s lines).stop = none) (lines' : List (List UInt8)) :
    consumeLines s (lines ++ lines') =
      ⟨(consumeLines s lines).out ++ (consumeLines (consumeLines s lines).state lines').out,
        (consumeLines (consumeLines s lines).state lines').state,
        (consumeLines (consumeLines s lines).state lines').stop⟩ :=
  Transducer.run_append h lines'

theorem consumeLines_append_of_stop {s : Scanner} {lines : List (List UInt8)} {e : ScanError}
    (h : (consumeLines s lines).stop = some e) (lines' : List (List UInt8)) :
    consumeLines s (lines ++ lines') = consumeLines s lines :=
  Transducer.run_append_of_stop h lines'

theorem consumeLines_cons_ok {s s' : Scanner} {line : List UInt8} {o : Option Frame}
    (h : consumeLine s line = (.ok o, s')) (lines : List (List UInt8)) :
    consumeLines s (line :: lines) = ⟨o.toList ++ (consumeLines s' lines).out,
      (consumeLines s' lines).state, (consumeLines s' lines).stop⟩ := by
  apply Transducer.run_cons_ok
  rw [lineStep, h]
  rfl

theorem consumeLines_cons_error {s s' : Scanner} {line : List UInt8} {e : ScanError}
    (h : consumeLine s line = (.error e, s')) (lines : List (List UInt8)) :
    consumeLines s (line :: lines) = ⟨[], s', some e⟩ := by
  apply Transducer.run_cons_error
  rw [lineStep, h]
  rfl

/-- The loop runs `consumeLine` over the terminated lines of the buffer and leaves its tail. -/
theorem feedLoop_eq (fuel : ℕ) (s : Scanner) (out : List Frame) (hfuel : s.buf.length < fuel)
    (hnext : nextLine s.buf s.pendingCr false = nextLine s.buf false false) :
    (∀ e, (consumeLines s (openLines s.buf).1).stop = some e →
      (feedLoop fuel s out).1 = .error e ∧ (feedLoop fuel s out).2.pendingCr = false) ∧
    ((consumeLines s (openLines s.buf).1).stop = none →
      ∃ p, feedLoop fuel s out = (.ok (out ++ (consumeLines s (openLines s.buf).1).out),
        (consumeLines s (openLines s.buf).1).state.withBuf (openLines s.buf).2 p)) := by
  induction fuel generalizing s out with
  | zero => omega
  | succ fuel ih =>
      have hlines := LineSplit.splitOpen_eq_cut cr_ne_lf s.buf
      cases hcut : LineSplit.cut lf cr s.buf with
      | none =>
          simp only [hcut] at hlines
          have hloop : feedLoop (fuel + 1) s out = (.ok out, s) := by
            simp only [feedLoop, hnext, nextLine_eq_cut, hcut, Option.map_none]
          rw [hloop, openLines, hlines]
          exact ⟨fun e he => (Option.some_ne_none e he.symm).elim,
            fun _ => ⟨s.pendingCr, by simp [consumeLines]⟩⟩
      | some p =>
          obtain ⟨line, rest⟩ := p
          obtain ⟨hsuf, hlen⟩ := LineSplit.cut_isSuffix hcut
          have hdrop : s.buf.drop (s.buf.length - rest.length) = rest :=
            (List.suffix_iff_eq_drop.mp hsuf).symm
          have hstep := (bookkeeping_withBuf rest false).consumeLine s line
          simp only [hcut] at hlines
          rw [openLines, hlines]
          rcases hline : consumeLine s line with ⟨e | o, s'⟩
          · rw [hline] at hstep
            have hloop : feedLoop (fuel + 1) s out = (.error e, s'.withBuf rest false) := by
              simp only [feedLoop, hnext, nextLine_eq_cut, hcut, Option.map_some, hdrop, hstep]
            rw [hloop, consumeLines_cons_error hline]
            exact ⟨fun e' he => ⟨congrArg _ (Option.some.inj he), rfl⟩, fun h => by cases h⟩
          · rw [hline] at hstep
            have hloop : feedLoop (fuel + 1) s out =
                feedLoop fuel (s'.withBuf rest false) (out ++ o.toList) := by
              cases o <;> simp [feedLoop, hnext, nextLine_eq_cut, hcut, hdrop, hstep]
            have hi := ih (s'.withBuf rest false) (out ++ o.toList)
              (by rw [withBuf_buf]; omega) rfl
            simp only [consumeLines_withBuf, withBuf_buf, withBuf_withBuf] at hi
            rw [hloop, consumeLines_cons_ok hline, ← List.append_assoc]
            exact hi

/-- A carriage return is carried over only at the end of a tail without another terminator. -/
structure EndsInLoneCr (buf : List UInt8) : Prop where
  last : buf.getLast? = some cr
  cr_notMem : cr ∉ buf.dropLast
  lf_notMem : lf ∉ buf.dropLast

/-- What holds of a scanner after any call of `feed`, also a failed one. -/
def CarriesCr (s : Scanner) : Prop := s.pendingCr = true → EndsInLoneCr s.buf

theorem EndsInLoneCr.ne_nil {buf : List UInt8} (h : EndsInLoneCr buf) : buf ≠ [] := by
  intro hnil
  have hlast := h.last
  rw [hnil] at hlast
  cases hlast

theorem EndsInLoneCr.head_ne {buf : List UInt8} (h : EndsInLoneCr buf) : buf.head? ≠ some lf := by
  have hmem := h.lf_notMem
  rw [← List.dropLast_append_getLast? cr h.last]
  generalize buf.dropLast = front at hmem
  cases front with
  | nil =>
      intro hhead
      exact cr_ne_lf (Option.some.inj hhead)
  | cons b front =>
      intro hhead
      obtain rfl : b = lf := Option.some.inj hhead
      exact hmem List.mem_cons_self

/-- A carried-over carriage return keeps a line feed off the front of the buffer. -/
theorem CarriesCr.not_takes {s : Scanner} (h : CarriesCr s) (chunk : List UInt8) :
    (s.pendingCr && (s.buf ++ chunk).head? == some lf) = false := by
  cases hp : s.pendingCr with
  | false => rfl
  | true =>
      have hends := h hp
      rw [List.head?_append_of_ne_nil _ hends.ne_nil]
      exact beq_eq_false_iff_ne.mpr hends.head_ne

theorem CarriesCr.nextLine_eq {s : Scanner} (h : CarriesCr s) (chunk : List UInt8) :
    nextLine (s.buf ++ chunk) s.pendingCr false = nextLine (s.buf ++ chunk) false false := by
  rw [nextLine, nextLine, h.not_takes chunk]
  rfl

/-- What `feed` does, line by line. -/
theorem CarriesCr.feed_eq {s : Scanner} (h : CarriesCr s) (chunk : List UInt8) :
    (∀ e, (consumeLines s (openLines (s.buf ++ chunk)).1).stop = some e →
      (feed s chunk).1 = .error e ∧ (feed s chunk).2.pendingCr = false) ∧
    ((consumeLines s (openLines (s.buf ++ chunk)).1).stop = none →
      feed s chunk = (.ok (consumeLines s (openLines (s.buf ++ chunk)).1).out,
        (consumeLines s (openLines (s.buf ++ chunk)).1).state.withBuf (openLines (s.buf ++ chunk)).2
          ((openLines (s.buf ++ chunk)).2.getLast? == some cr))) := by
  obtain ⟨herr, hok⟩ := feedLoop_eq ((s.buf ++ chunk).length + 1)
    (s.withBuf (s.buf ++ chunk) s.pendingCr) [] (Nat.lt_succ_self _) (h.nextLine_eq chunk)
  simp only [consumeLines_withBuf, withBuf_buf, withBuf_withBuf, List.nil_append] at herr hok
  constructor
  · intro e he
    obtain ⟨h₁, h₂⟩ := herr e he
    rw [feed, withBuf_buf]
    rcases hloop : feedLoop ((s.buf ++ chunk).length + 1)
      (s.withBuf (s.buf ++ chunk) s.pendingCr) [] with ⟨e' | o, s'⟩
    · rw [hloop] at h₁ h₂
      exact ⟨h₁, h₂⟩
    · rw [hloop] at h₁
      cases h₁
  · intro hnone
    obtain ⟨p, hp⟩ := hok hnone
    rw [feed, withBuf_buf, hp]
    rfl

/-- Between successful calls the buffer is an unterminated tail, and `pendingCr` says whether it
ends in a carriage return. -/
structure Settled (s : Scanner) : Prop where
  tail : openLines s.buf = ([], s.buf)
  pendingCr : s.pendingCr = (s.buf.getLast? == some cr)

theorem settled_new : Settled new := ⟨rfl, rfl⟩

theorem settled_withBuf (s : Scanner) (data : List UInt8) :
    Settled (s.withBuf (openLines data).2 ((openLines data).2.getLast? == some cr)) :=
  ⟨LineSplit.splitOpen_tail cr_ne_lf data, rfl⟩

theorem Settled.carriesCr {s : Scanner} (h : Settled s) : CarriesCr s := by
  intro hp
  have hlines : (openLines s.buf).1 = [] := by rw [h.tail]
  obtain ⟨hlf, hcr⟩ := LineSplit.not_mem_of_splitOpen_nil cr_ne_lf hlines
  rw [h.pendingCr] at hp
  exact ⟨beq_iff_eq.1 hp, hcr, mt (fun hmem => List.dropLast_subset _ hmem) hlf⟩

def feedAll (s : Scanner) (chunks : List (List UInt8)) : Transducer.Run Scanner ScanError Frame :=
  Transducer.run feed s chunks

/-- Feeding a list of chunks is running `consumeLine` over the lines of their concatenation, however
it was cut. -/
theorem Settled.feedAll_eq {s : Scanner} (h : Settled s) (chunks : List (List UInt8)) :
    (feedAll s chunks).stop = (consumeLines s (openLines (s.buf ++ chunks.flatten)).1).stop ∧
    ((feedAll s chunks).stop = none →
      (feedAll s chunks).out = (consumeLines s (openLines (s.buf ++ chunks.flatten)).1).out ∧
      (feedAll s chunks).state =
        (consumeLines s (openLines (s.buf ++ chunks.flatten)).1).state.withBuf
          (openLines (s.buf ++ chunks.flatten)).2
          ((openLines (s.buf ++ chunks.flatten)).2.getLast? == some cr)) := by
  induction chunks generalizing s with
  | nil =>
      rw [List.flatten_nil, List.append_nil, h.tail]
      refine ⟨rfl, fun _ => ⟨rfl, ?_⟩⟩
      rw [← h.pendingCr]
      rfl
  | cons chunk chunks ih =>
      simp only [List.flatten_cons, ← List.append_assoc, openLines_append (s.buf ++ chunk)]
      obtain ⟨herr, hok⟩ := h.carriesCr.feed_eq chunk
      have hsettled := settled_withBuf (consumeLines s (openLines (s.buf ++ chunk)).1).state
        (s.buf ++ chunk)
      generalize openLines (s.buf ++ chunk) = lines at herr hok hsettled
      cases hstop : (consumeLines s lines.1).stop with
      | some e =>
          have hfeed : feed s chunk = (.error e, (feed s chunk).2) := Prod.ext (herr e hstop).1 rfl
          have hfeeds : feedAll s (chunk :: chunks) = ⟨[], (feed s chunk).2, some e⟩ :=
            Transducer.run_cons_error hfeed chunks
          rw [hfeeds, consumeLines_append_of_stop hstop]
          exact ⟨hstop.symm, fun hn => by cases hn⟩
      | none =>
          have hfeeds := Transducer.run_cons_ok (hok hstop) chunks
          have hi := ih hsettled
          rw [withBuf_buf, consumeLines_withBuf] at hi
          rw [feedAll, hfeeds, consumeLines_append hstop]
          refine ⟨hi.1, fun hn => ?_⟩
          obtain ⟨hout, hstate⟩ := hi.2 hn
          exact ⟨congrArg ((consumeLines s lines.1).out ++ ·) hout, hstate⟩

theorem feedAll_stop (chunks : List (List UInt8)) :
    (feedAll new chunks).stop = (consumeLines new (openLines chunks.flatten).1).stop :=
  (settled_new.feedAll_eq chunks).1

theorem feedAll_of_stop {chunks : List (List UInt8)} (h : (feedAll new chunks).stop = none) :
    (feedAll new chunks).out = (consumeLines new (openLines chunks.flatten).1).out ∧
      (feedAll new chunks).state = (consumeLines new (openLines chunks.flatten).1).state.withBuf
        (openLines chunks.flatten).2 ((openLines chunks.flatten).2.getLast? == some cr) :=
  (settled_new.feedAll_eq chunks).2 h

end Scanner

end Semantik
