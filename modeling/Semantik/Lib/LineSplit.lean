import Mathlib.Data.List.Basic

/-!
# Splitting a stream into lines

A line ends at `lf`, at `cr` followed by `lf` (one terminator), or at `cr` alone. `split` reads a
complete stream. `splitOpen` reads a stream that may go on: a `cr` in last position is left in the
tail, since an `lf` may follow it. The tail of `splitOpen` is all that has to be kept to go on
splitting, `splitOpen_append`. `join` writes lines with terminators of any kind, and `split` reads
them back, `split_join_append`.
-/

namespace LineSplit

variable {α : Type*} [DecidableEq α] (lf cr : α)

/-- Put a symbol in front of the first line, or of the tail if no line is terminated. -/
def consFirst (b : α) : List (List α) × List α → List (List α) × List α
  | ([], tail) => ([], b :: tail)
  | (l :: ls, tail) => ((b :: l) :: ls, tail)

def split : List α → List (List α) × List α
  | [] => ([], [])
  | b :: s =>
    if b = lf then ([] :: (split s).1, (split s).2)
    else if b = cr then
      match s with
      | [] => ([[]], [])
      | b' :: s' =>
        if b' = lf then ([] :: (split s').1, (split s').2)
        else ([] :: (split (b' :: s')).1, (split (b' :: s')).2)
    else consFirst b (split s)

/-- The lines already known to be terminated, and the tail still to be resolved. -/
def splitOpen : List α → List (List α) × List α
  | [] => ([], [])
  | b :: s =>
    if b = lf then ([] :: (splitOpen s).1, (splitOpen s).2)
    else if b = cr then
      match s with
      | [] => ([], [cr])
      | b' :: s' =>
        if b' = lf then ([] :: (splitOpen s').1, (splitOpen s').2)
        else ([] :: (splitOpen (b' :: s')).1, (splitOpen (b' :: s')).2)
    else consFirst b (splitOpen s)

def cut : List α → Option (List α × List α)
  | [] => none
  | b :: s =>
    if b = lf then some ([], s)
    else if b = cr then
      match s with
      | [] => none
      | b' :: s' => if b' = lf then some ([], s') else some ([], b' :: s')
    else (cut s).map (fun p => (b :: p.1, p.2))

variable {lf cr}

omit [DecidableEq α] in
@[simp] theorem consFirst_nil (b : α) (tail : List α) :
    consFirst b ([], tail) = ([], b :: tail) := rfl

omit [DecidableEq α] in
@[simp] theorem consFirst_cons (b : α) (l : List α) (ls : List (List α)) (tail : List α) :
    consFirst b (l :: ls, tail) = ((b :: l) :: ls, tail) := rfl

@[simp] theorem splitOpen_nil : splitOpen lf cr [] = ([], []) := rfl

@[simp] theorem splitOpen_lf (s : List α) :
    splitOpen lf cr (lf :: s) = ([] :: (splitOpen lf cr s).1, (splitOpen lf cr s).2) := by
  rw [splitOpen.eq_def]
  simp only [if_true]

theorem splitOpen_cr (h : cr ≠ lf) : splitOpen lf cr [cr] = ([], [cr]) := by
  simp [splitOpen, h]

theorem splitOpen_crlf (h : cr ≠ lf) (s : List α) :
    splitOpen lf cr (cr :: lf :: s) = ([] :: (splitOpen lf cr s).1, (splitOpen lf cr s).2) := by
  rw [splitOpen.eq_def]
  simp only [if_neg h, if_true]

theorem splitOpen_cr_cons (h : cr ≠ lf) {b : α} (hb : b ≠ lf) (s : List α) :
    splitOpen lf cr (cr :: b :: s) =
      ([] :: (splitOpen lf cr (b :: s)).1, (splitOpen lf cr (b :: s)).2) := by
  rw [splitOpen.eq_def]
  simp only [if_neg h, if_neg hb, if_true]

theorem splitOpen_cons {b : α} (hlf : b ≠ lf) (hcr : b ≠ cr) (s : List α) :
    splitOpen lf cr (b :: s) = consFirst b (splitOpen lf cr s) := by
  rw [splitOpen.eq_def]
  simp only [if_neg hlf, if_neg hcr]

@[simp] theorem split_nil : split lf cr [] = ([], []) := rfl

@[simp] theorem split_lf (s : List α) :
    split lf cr (lf :: s) = ([] :: (split lf cr s).1, (split lf cr s).2) := by
  rw [split.eq_def]
  simp only [if_true]

theorem split_cr (h : cr ≠ lf) : split lf cr [cr] = ([[]], []) := by
  simp [split, h]

theorem split_crlf (h : cr ≠ lf) (s : List α) :
    split lf cr (cr :: lf :: s) = ([] :: (split lf cr s).1, (split lf cr s).2) := by
  rw [split.eq_def]
  simp only [if_neg h, if_true]

theorem split_cr_cons (h : cr ≠ lf) {b : α} (hb : b ≠ lf) (s : List α) :
    split lf cr (cr :: b :: s) = ([] :: (split lf cr (b :: s)).1, (split lf cr (b :: s)).2) := by
  rw [split.eq_def]
  simp only [if_neg h, if_neg hb, if_true]

theorem split_cons {b : α} (hlf : b ≠ lf) (hcr : b ≠ cr) (s : List α) :
    split lf cr (b :: s) = consFirst b (split lf cr s) := by
  rw [split.eq_def]
  simp only [if_neg hlf, if_neg hcr]

/-- Case analysis on how a stream starts, one case for each terminator. -/
theorem stream_cases (lf cr : α) {P : List α → Prop} (nil : P []) (lf_cons : ∀ s, P s → P (lf :: s))
    (cr_end : P [cr]) (crlf : ∀ s, P s → P (cr :: lf :: s))
    (cr_cons : ∀ b s, b ≠ lf → P (b :: s) → P (cr :: b :: s))
    (other : ∀ b s, b ≠ lf → b ≠ cr → P s → P (b :: s)) : ∀ s : List α, P s
  | [] => nil
  | [b] => by
      by_cases hlf : b = lf
      · rw [hlf]; exact lf_cons [] nil
      by_cases hcr : b = cr
      · rw [hcr]; exact cr_end
      · exact other b [] hlf hcr nil
  | b :: b' :: s => by
      by_cases hlf : b = lf
      · rw [hlf]
        exact lf_cons (b' :: s) (stream_cases lf cr nil lf_cons cr_end crlf cr_cons other (b' :: s))
      by_cases hcr : b = cr
      · rw [hcr]
        by_cases hb' : b' = lf
        · rw [hb']
          exact crlf s (stream_cases lf cr nil lf_cons cr_end crlf cr_cons other s)
        · exact cr_cons b' s hb' (stream_cases lf cr nil lf_cons cr_end crlf cr_cons other (b' :: s))
      · exact other b (b' :: s) hlf hcr
          (stream_cases lf cr nil lf_cons cr_end crlf cr_cons other (b' :: s))

/-- Resolving more input appends lines: the part already resolved is never revisited. -/
theorem splitOpen_append (h : cr ≠ lf) (s t : List α) :
    splitOpen lf cr (s ++ t) =
      ((splitOpen lf cr s).1 ++ (splitOpen lf cr ((splitOpen lf cr s).2 ++ t)).1,
        (splitOpen lf cr ((splitOpen lf cr s).2 ++ t)).2) := by
  induction s using stream_cases lf cr with
  | nil => simp
  | lf_cons s ih => simp only [List.cons_append, splitOpen_lf, ih]
  | cr_end => simp only [splitOpen_cr h, List.nil_append]
  | crlf s ih => simp only [List.cons_append, splitOpen_crlf h, ih]
  | cr_cons b s hb ih =>
      rw [List.cons_append] at ih
      simp only [List.cons_append, splitOpen_cr_cons h hb, ih]
  | other b s hlf hcr ih =>
      rw [List.cons_append, splitOpen_cons hlf hcr, splitOpen_cons hlf hcr, ih]
      rcases hs : splitOpen lf cr s with ⟨_ | ⟨l, ls⟩, tail⟩
      · simp [splitOpen_cons hlf hcr]
      · simp

theorem splitOpen_line {line : List α} (hlf : lf ∉ line) (hcr : cr ∉ line) (s : List α) :
    splitOpen lf cr (line ++ lf :: s) = (line :: (splitOpen lf cr s).1, (splitOpen lf cr s).2) := by
  induction line with
  | nil => exact splitOpen_lf s
  | cons b line ih =>
      rw [List.mem_cons, not_or] at hlf hcr
      rw [List.cons_append, splitOpen_cons (Ne.symm hlf.1) (Ne.symm hcr.1), ih hlf.2 hcr.2,
        consFirst_cons]

theorem splitOpen_unterminated {tail : List α} (hlf : lf ∉ tail) (hcr : cr ∉ tail) :
    splitOpen lf cr tail = ([], tail) := by
  induction tail with
  | nil => rfl
  | cons b tail ih =>
      rw [List.mem_cons, not_or] at hlf hcr
      rw [splitOpen_cons (Ne.symm hlf.1) (Ne.symm hcr.1), ih hlf.2 hcr.2, consFirst_nil]

/-- The tail holds no terminated line. -/
theorem splitOpen_tail (h : cr ≠ lf) (s : List α) :
    splitOpen lf cr (splitOpen lf cr s).2 = ([], (splitOpen lf cr s).2) := by
  induction s using stream_cases lf cr with
  | nil => rfl
  | lf_cons s ih => simpa only [splitOpen_lf] using ih
  | cr_end => simp only [splitOpen_cr h]
  | crlf s ih => simpa only [splitOpen_crlf h] using ih
  | cr_cons b s hb ih => simpa only [splitOpen_cr_cons h hb] using ih
  | other b s hlf hcr ih =>
      rw [splitOpen_cons hlf hcr]
      rcases hs : splitOpen lf cr s with ⟨_ | ⟨l, ls⟩, tail⟩
      · rw [hs] at ih
        rw [consFirst_nil, splitOpen_cons hlf hcr, ih, consFirst_nil]
      · simpa [hs] using ih

/-- A stream without a terminated line has no `lf`, and no `cr` but in last position. -/
theorem not_mem_of_splitOpen_nil (h : cr ≠ lf) {s : List α} (hs : (splitOpen lf cr s).1 = []) :
    lf ∉ s ∧ cr ∉ s.dropLast := by
  induction s using stream_cases lf cr with
  | nil => exact ⟨List.not_mem_nil, List.not_mem_nil⟩
  | lf_cons s _ =>
      rw [splitOpen_lf] at hs
      cases hs
  | cr_end => exact ⟨by simpa using h.symm, List.not_mem_nil⟩
  | crlf s _ =>
      rw [splitOpen_crlf h] at hs
      cases hs
  | cr_cons b s hb _ =>
      rw [splitOpen_cr_cons h hb] at hs
      cases hs
  | other b s hlf hcr ih =>
      have hopen : (splitOpen lf cr s).1 = [] := by
        rw [splitOpen_cons hlf hcr] at hs
        rcases hsplit : splitOpen lf cr s with ⟨_ | ⟨l, ls⟩, tail⟩
        · rfl
        · rw [hsplit] at hs
          cases hs
      obtain ⟨hmem, hlast⟩ := ih hopen
      refine ⟨?_, ?_⟩
      · rw [List.mem_cons, not_or]
        exact ⟨hlf.symm, hmem⟩
      · rcases s with _ | ⟨b', s⟩
        · exact List.not_mem_nil
        · rw [List.dropLast_cons_cons, List.mem_cons, not_or]
          exact ⟨hcr.symm, hlast⟩

/-- When the stream has ended, a `cr` left in the tail terminates a line after all. -/
theorem split_eq (h : cr ≠ lf) (s : List α) :
    split lf cr s =
      if (splitOpen lf cr s).2.getLast? = some cr then
        ((splitOpen lf cr s).1 ++ [(splitOpen lf cr s).2.dropLast], [])
      else splitOpen lf cr s := by
  induction s using stream_cases lf cr with
  | nil => rfl
  | lf_cons s ih =>
      rw [split_lf, splitOpen_lf, ih]
      split_ifs <;> rfl
  | cr_end => simp [split_cr h, splitOpen_cr h]
  | crlf s ih =>
      rw [split_crlf h, splitOpen_crlf h, ih]
      split_ifs <;> rfl
  | cr_cons b s hb ih =>
      rw [split_cr_cons h hb, splitOpen_cr_cons h hb, ih]
      split_ifs <;> rfl
  | other b s hlf hcr ih =>
      rw [split_cons hlf hcr, splitOpen_cons hlf hcr, ih]
      rcases hs : splitOpen lf cr s with ⟨_ | ⟨l, ls⟩, tail⟩
      · rcases tail with _ | ⟨c, tail⟩
        · simp [hcr]
        · simp only [consFirst_nil, List.getLast?_cons_cons, List.dropLast_cons_cons, List.nil_append]
          split_ifs <;> rfl
      · by_cases hl : tail.getLast? = some cr <;> simp [hl]

omit [DecidableEq α] in
/-- A `cr` in last position stays there without the first symbol, unless that is it. -/
theorem getLast?_of_cons {b : α} {s : List α} (hb : b ≠ cr) (h : (b :: s).getLast? = some cr) :
    s.getLast? = some cr := by
  cases s with
  | nil => exact absurd (Option.some.inj h) hb
  | cons b' s => rwa [List.getLast?_cons_cons] at h

theorem split_ne_nil (h : cr ≠ lf) {s : List α} (hlast : s.getLast? = some cr) :
    (split lf cr s).1 ≠ [] := by
  induction s using stream_cases lf cr with
  | nil => cases hlast
  | lf_cons s _ => simp
  | cr_end => simp [split_cr h]
  | crlf s _ => simp [split_crlf h]
  | cr_cons b s hb _ => simp [split_cr_cons h hb]
  | other b s hlf hcr ih =>
      obtain ⟨l, ls, hls⟩ := List.exists_cons_of_ne_nil (ih (getLast?_of_cons hcr hlast))
      rw [split_cons hlf hcr, show split lf cr s = (l :: ls, (split lf cr s).2) by rw [← hls]]
      simp

/-- An `lf` after a `cr` in last position adds no line to those of the stream up to the `cr`. -/
theorem splitOpen_append_lf (h : cr ≠ lf) {s : List α} (hlast : s.getLast? = some cr) (t : List α) :
    splitOpen lf cr (s ++ lf :: t) =
      ((split lf cr s).1 ++ (splitOpen lf cr t).1, (splitOpen lf cr t).2) := by
  induction s using stream_cases lf cr with
  | nil => cases hlast
  | lf_cons s ih =>
      simp only [List.cons_append, splitOpen_lf, split_lf, ih (getLast?_of_cons h.symm hlast)]
  | cr_end => simp only [List.cons_append, List.nil_append, splitOpen_crlf h, split_cr h]
  | crlf s ih =>
      rw [List.getLast?_cons_cons] at hlast
      simp only [List.cons_append, splitOpen_crlf h, split_crlf h,
        ih (getLast?_of_cons h.symm hlast)]
  | cr_cons b s hb ih =>
      rw [List.getLast?_cons_cons] at hlast
      have hih := ih hlast
      rw [List.cons_append] at hih
      simp only [List.cons_append, splitOpen_cr_cons h hb, split_cr_cons h hb, hih]
  | other b s hlf hcr ih =>
      have hs := getLast?_of_cons hcr hlast
      rw [List.cons_append, splitOpen_cons hlf hcr, split_cons hlf hcr, ih hs]
      -- the stream up to the carriage return has a first line, which the symbol joins
      obtain ⟨l, ls, hls⟩ := List.exists_cons_of_ne_nil (split_ne_nil h hs)
      rw [show split lf cr s = (l :: ls, (split lf cr s).2) by rw [← hls]]
      rfl

theorem splitOpen_eq_cut (h : cr ≠ lf) (s : List α) :
    splitOpen lf cr s = match cut lf cr s with
      | none => ([], s)
      | some (l, rest) => (l :: (splitOpen lf cr rest).1, (splitOpen lf cr rest).2) := by
  induction s using stream_cases lf cr with
  | nil => rfl
  | lf_cons s _ => simp [cut]
  | cr_end => simp [cut, h, splitOpen_cr h]
  | crlf s _ => simp [cut, h, splitOpen_crlf h]
  | cr_cons b s hb _ => simp [cut, h, hb, splitOpen_cr_cons h hb]
  | other b s hlf hcr ih =>
      rw [splitOpen_cons hlf hcr, ih]
      rcases hs : cut lf cr s with _ | ⟨l, rest⟩ <;> simp [cut, hlf, hcr, hs]

theorem cut_isSuffix {s l rest : List α} (hs : cut lf cr s = some (l, rest)) :
    rest <:+ s ∧ rest.length < s.length := by
  induction s generalizing l rest with
  | nil => simp [cut] at hs
  | cons b s ih =>
      rw [cut.eq_def] at hs
      simp only at hs
      split_ifs at hs with hlf hcr
      · obtain ⟨-, rfl⟩ : [] = l ∧ s = rest := by simpa using hs
        exact ⟨List.suffix_cons b s, by simp⟩
      · rcases s with _ | ⟨b', s'⟩
        · simp at hs
        · simp only at hs
          split_ifs at hs
          · obtain ⟨-, rfl⟩ : [] = l ∧ s' = rest := by simpa using hs
            exact ⟨⟨[b, b'], rfl⟩, by simp only [List.length_cons]; omega⟩
          · obtain ⟨-, rfl⟩ : [] = l ∧ b' :: s' = rest := by simpa using hs
            exact ⟨List.suffix_cons b _, by simp⟩
      · obtain ⟨p, hp, hl⟩ := Option.map_eq_some_iff.mp hs
        obtain ⟨-, rfl⟩ : b :: p.1 = l ∧ p.2 = rest := by simpa using hl
        obtain ⟨hsuf, hlen⟩ := ih hp
        exact ⟨hsuf.trans (List.suffix_cons b s), by simp only [List.length_cons]; omega⟩

inductive Terminator where
  | lf
  | cr
  | crlf
deriving DecidableEq, Repr

variable (lf cr)

def symbols : Terminator → List α
  | .lf => [lf]
  | .cr => [cr]
  | .crlf => [cr, lf]

def join : List (List α × Terminator) → List α
  | [] => []
  | (line, t) :: lines => line ++ symbols lf cr t ++ join lines

def Plain (line : List α) : Prop := lf ∉ line ∧ cr ∉ line

/-- No line that is ended by a `cr` alone is followed by an empty line that is ended by an `lf`
alone, for the two terminators would be read as one. -/
def Unambiguous : List (List α × Terminator) → Prop
  | [] => True
  | (_, t) :: lines => (t = .cr → lines.head? ≠ some ([], .lf)) ∧ Unambiguous lines

instance (line : List α) : Decidable (Plain lf cr line) := inferInstanceAs (Decidable (_ ∧ _))

instance decidableUnambiguous : (lines : List (List α × Terminator)) → Decidable (Unambiguous lines)
  | [] => isTrue trivial
  | (_, t) :: lines =>
    have := decidableUnambiguous lines
    inferInstanceAs (Decidable ((t = .cr → lines.head? ≠ some ([], .lf)) ∧ Unambiguous lines))

variable {lf cr}

theorem split_plain_append {line : List α} (hline : Plain lf cr line) {s : List α}
    {lines : List (List α)} {tail : List α} (hs : split lf cr s = ([] :: lines, tail)) :
    split lf cr (line ++ s) = (line :: lines, tail) := by
  induction line with
  | nil => exact hs
  | cons b line ih =>
      obtain ⟨hlf, hcr⟩ := hline
      rw [List.mem_cons, not_or] at hlf hcr
      rw [List.cons_append, split_cons (Ne.symm hlf.1) (Ne.symm hcr.1), ih ⟨hlf.2, hcr.2⟩,
        consFirst_cons]

theorem split_plain {tail : List α} (h : Plain lf cr tail) : split lf cr tail = ([], tail) := by
  induction tail with
  | nil => rfl
  | cons b tail ih =>
      obtain ⟨hlf, hcr⟩ := h
      rw [List.mem_cons, not_or] at hlf hcr
      rw [split_cons (Ne.symm hlf.1) (Ne.symm hcr.1), ih ⟨hlf.2, hcr.2⟩, consFirst_nil]

/-- A `cr` that no `lf` follows ends a line. -/
theorem split_cr_of_head (h : cr ≠ lf) {s : List α} (hs : s.head? ≠ some lf) :
    split lf cr (cr :: s) = ([] :: (split lf cr s).1, (split lf cr s).2) := by
  cases s with
  | nil => exact split_cr h
  | cons b s =>
      have hb : b ≠ lf := fun hb => hs (congrArg some hb)
      exact split_cr_cons h hb s

theorem split_symbols (h : cr ≠ lf) {t : Terminator} {s : List α}
    (hs : t = .cr → s.head? ≠ some lf) :
    split lf cr (symbols lf cr t ++ s) = ([] :: (split lf cr s).1, (split lf cr s).2) := by
  cases t with
  | lf => exact split_lf s
  | cr => exact split_cr_of_head h (hs rfl)
  | crlf => exact split_crlf h s

omit [DecidableEq α] in
/-- The stream of some lines starts with an `lf` only if the first line is empty and ended by it. -/
theorem head_join_append (h : cr ≠ lf) {lines : List (List α × Terminator)}
    (hplain : ∀ l ∈ lines, Plain lf cr l.1) {tail : List α} (htail : Plain lf cr tail)
    (hhead : lines.head? ≠ some ([], .lf)) : (join lf cr lines ++ tail).head? ≠ some lf := by
  intro hlf
  rcases lines with _ | ⟨⟨line, t⟩, lines⟩
  · exact htail.1 (List.mem_of_mem_head? hlf)
  · rcases line with _ | ⟨b, line⟩
    · cases t with
      | lf => exact hhead rfl
      | cr => exact h (Option.some.inj hlf)
      | crlf => exact h (Option.some.inj hlf)
    · obtain rfl : b = lf := Option.some.inj hlf
      exact (hplain _ List.mem_cons_self).1 List.mem_cons_self

/-- Lines that were written are read back, whatever their terminators, with the text after the last
of them as the unterminated tail. -/
theorem split_join_append (h : cr ≠ lf) {lines : List (List α × Terminator)}
    (hplain : ∀ l ∈ lines, Plain lf cr l.1) (hunamb : Unambiguous lines) {tail : List α}
    (htail : Plain lf cr tail) :
    split lf cr (join lf cr lines ++ tail) = (lines.map Prod.fst, tail) := by
  induction lines with
  | nil => exact split_plain htail
  | cons l lines ih =>
      obtain ⟨line, t⟩ := l
      obtain ⟨hline, hlines⟩ := List.forall_mem_cons.1 hplain
      obtain ⟨ht, hunamb⟩ := hunamb
      have hrest := split_symbols h (t := t) (s := join lf cr lines ++ tail)
        (fun hcr => head_join_append h hlines htail (ht hcr))
      rw [ih hlines hunamb] at hrest
      rw [join, List.append_assoc, List.append_assoc, split_plain_append hline hrest, List.map_cons]

theorem split_eq_splitOpen_of_last (h : cr ≠ lf) {s : List α} (hlast : s.getLast? ≠ some cr) :
    split lf cr s = splitOpen lf cr s := by
  induction s using stream_cases lf cr with
  | nil => rfl
  | lf_cons s ih =>
      rcases s with _ | ⟨b, s⟩
      · simp
      · rw [List.getLast?_cons_cons] at hlast
        rw [split_lf, splitOpen_lf, ih hlast]
  | cr_end => exact absurd rfl hlast
  | crlf s ih =>
      rcases s with _ | ⟨b, s⟩
      · simp [split_crlf h, splitOpen_crlf h]
      · rw [List.getLast?_cons_cons, List.getLast?_cons_cons] at hlast
        rw [split_crlf h, splitOpen_crlf h, ih hlast]
  | cr_cons b s hb ih =>
      rw [List.getLast?_cons_cons] at hlast
      rw [split_cr_cons h hb, splitOpen_cr_cons h hb, ih hlast]
  | other b s hlf hcr ih =>
      rw [split_cons hlf hcr, splitOpen_cons hlf hcr, ih]
      intro hs
      rcases s with _ | ⟨b', s⟩
      · cases hs
      · rw [List.getLast?_cons_cons] at hlast
        exact hlast hs

/-- Every stream can be written so, with lines and a tail. -/
theorem exists_join (h : cr ≠ lf) (s : List α) : ∃ lines tail, s = join lf cr lines ++ tail ∧
    (∀ l ∈ lines, Plain lf cr l.1) ∧ Unambiguous lines ∧ Plain lf cr tail := by
  induction s using stream_cases lf cr with
  | nil => exact ⟨[], [], rfl, by simp, trivial, by simp [Plain]⟩
  | lf_cons s ih =>
      obtain ⟨lines, tail, rfl, hplain, hunamb, htail⟩ := ih
      refine ⟨([], .lf) :: lines, tail, rfl, ?_, ⟨by simp, hunamb⟩, htail⟩
      exact List.forall_mem_cons.2 ⟨by simp [Plain], hplain⟩
  | cr_end => exact ⟨[([], .cr)], [], rfl, by simp [Plain], by simp [Unambiguous], by simp [Plain]⟩
  | crlf s ih =>
      obtain ⟨lines, tail, rfl, hplain, hunamb, htail⟩ := ih
      refine ⟨([], .crlf) :: lines, tail, rfl, ?_, ⟨by simp, hunamb⟩, htail⟩
      exact List.forall_mem_cons.2 ⟨by simp [Plain], hplain⟩
  | cr_cons b s hb ih =>
      obtain ⟨lines, tail, hs, hplain, hunamb, htail⟩ := ih
      refine ⟨([], .cr) :: lines, tail, ?_, ?_, ⟨?_, hunamb⟩, htail⟩
      · rw [hs]
        rfl
      · exact List.forall_mem_cons.2 ⟨by simp [Plain], hplain⟩
      · intro _ hhead
        obtain ⟨lines, rfl⟩ := List.head?_eq_some_iff.1 hhead
        obtain ⟨rfl, -⟩ := List.cons_eq_cons.1 hs
        exact hb rfl
  | other b s hlf hcr ih =>
      obtain ⟨lines, tail, rfl, hplain, hunamb, htail⟩ := ih
      have hcons : ∀ {line}, Plain lf cr line → Plain lf cr (b :: line) := by
        intro line hline
        simp only [Plain, List.mem_cons, not_or]
        exact ⟨⟨Ne.symm hlf, hline.1⟩, Ne.symm hcr, hline.2⟩
      rcases lines with _ | ⟨⟨line, t⟩, lines⟩
      · exact ⟨[], b :: tail, rfl, hplain, hunamb, hcons htail⟩
      · obtain ⟨hline, hlines⟩ := List.forall_mem_cons.1 hplain
        exact ⟨(b :: line, t) :: lines, tail, rfl, List.forall_mem_cons.2 ⟨hcons hline, hlines⟩,
          hunamb, htail⟩

/-- No line that is read holds a terminator, and neither does the tail. -/
theorem plain_split (h : cr ≠ lf) (s : List α) :
    (∀ line ∈ (split lf cr s).1, Plain lf cr line) ∧ Plain lf cr (split lf cr s).2 := by
  obtain ⟨lines, tail, rfl, hplain, hunamb, htail⟩ := exists_join h s
  rw [split_join_append h hplain hunamb htail]
  refine ⟨?_, htail⟩
  intro line hline
  obtain ⟨l, hl, rfl⟩ := List.mem_map.1 hline
  exact hplain l hl

end LineSplit
