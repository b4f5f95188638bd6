import Semantik.HttpDateTemplate

/-!
# Dates are decoded exactly

A date of the calendar and a time of day, written in the template, is read as the seconds since the
epoch, and as the wait until then.
-/

namespace Semantik

open Utf8 Calendar

def twoDigits (n : ℕ) : List Char := [Nat.digitChar (n / 10), Nat.digitChar (n % 10)]

def fourDigits (n : ℕ) : List Char := twoDigits (n / 100) ++ twoDigits (n % 100)

def dayName (weekday : Fin 7) : String := dayNames.get weekday

def monthName (d : Date) : String :=
  monthNames.get ⟨d.month - 1, Nat.sub_one_lt_of_le d.month_pos d.month_le⟩

def imfFixdate (weekday : Fin 7) (d : Date) (hour minute second : ℕ) : String :=
  String.ofList (templateChars (dayName weekday).toList (twoDigits d.day) (monthName d).toList
    (fourDigits d.year) (twoDigits hour) (twoDigits minute) (twoDigits second))

/-- The day of the week, from Sunday, so many days after the epoch, which was a Thursday. -/
def weekdayAfter (n : ℕ) : Fin 7 := Fin.ofNat 7 (n + 4)

theorem isDigit_digitChar {n : ℕ} (h : n < 10) : (Nat.digitChar n).isDigit = true := by
  interval_cases n <;> rfl

theorem toNat_digitChar {n : ℕ} (h : n < 10) : (Nat.digitChar n).toNat - 48 = n := by
  interval_cases n <;> rfl

theorem isDigits_twoDigits {n : ℕ} (h : n < 100) : IsDigits 2 (twoDigits n) := by
  refine ⟨rfl, ?_⟩
  simp only [twoDigits, List.forall_mem_cons]
  exact ⟨isDigit_digitChar (by omega), isDigit_digitChar (by omega), by simp⟩

theorem digitsValue_append (ds es : List Char) :
    digitsValue (ds ++ es) = digitsValue ds * 10 ^ es.length + digitsValue es := by
  induction es using List.reverseRecOn with
  | nil => simp [digitsValue]
  | append_singleton es c ih =>
      rw [← List.append_assoc, digitsValue_concat, digitsValue_concat, ih, List.length_append,
        List.length_singleton, Nat.pow_succ]
      ring

theorem digitsValue_twoDigits {n : ℕ} (h : n < 100) : digitsValue (twoDigits n) = n := by
  have hvalue : digitsValue (twoDigits n) =
      (0 * 10 + ((Nat.digitChar (n / 10)).toNat - 48)) * 10 +
        ((Nat.digitChar (n % 10)).toNat - 48) := rfl
  rw [hvalue, toNat_digitChar (by omega), toNat_digitChar (by omega)]
  omega

theorem unsigned_of_isDigits {k v : ℕ} {ds : List Char} (h : IsDigits (k + 1) ds)
    (hv : digitsValue ds = v) : Unsigned ds v := by
  refine ⟨ds, ⟨?_, h.2⟩, hv, .inl rfl⟩
  intro hnil
  rw [hnil] at h
  cases h.1

theorem isDigits_fourDigits {n : ℕ} (h : n < 10000) : IsDigits 4 (fourDigits n) := by
  refine ⟨rfl, ?_⟩
  intro c hc
  rcases List.mem_append.1 hc with hc | hc
  · exact (isDigits_twoDigits (by omega)).2 c hc
  · exact (isDigits_twoDigits (by omega)).2 c hc

theorem digitsValue_fourDigits {n : ℕ} (h : n < 10000) : digitsValue (fourDigits n) = n := by
  rw [fourDigits, digitsValue_append, digitsValue_twoDigits (by omega),
    digitsValue_twoDigits (by omega)]
  change n / 100 * 100 + n % 100 = n
  omega

theorem field_map_asciiByte (cs : List Char) (i j : ℕ) :
    field (cs.map asciiByte) i j = ((cs.take j).drop i).map asciiByte := by
  rw [field, ← List.map_take, ← List.map_drop]

/-- The parts of the template at the positions that are read. -/
theorem templateChars_positions {weekday day month year hour minute second cs : List Char}
    (hweekday : weekday.length = 3) (hday : day.length = 2) (hmonth : month.length = 3)
    (hyear : year.length = 4) (hhour : hour.length = 2) (hminute : minute.length = 2)
    (hsecond : second.length = 2)
    (hcs : cs = templateChars weekday day month year hour minute second) :
    cs.length = 29 ∧ cs.drop 25 = " GMT".toList ∧ (cs.take 7).drop 5 = day ∧
      (cs.take 11).drop 8 = month ∧ (cs.take 16).drop 12 = year ∧ (cs.take 19).drop 17 = hour ∧
      (cs.take 22).drop 20 = minute ∧ (cs.take 25).drop 23 = second := by
  obtain ⟨_, _, _, rfl⟩ := List.length_eq_three.1 hweekday
  obtain ⟨_, _, rfl⟩ := List.length_eq_two.1 hday
  obtain ⟨_, _, _, rfl⟩ := List.length_eq_three.1 hmonth
  obtain ⟨_, _, rfl⟩ := List.length_eq_two.1 hhour
  obtain ⟨_, _, rfl⟩ := List.length_eq_two.1 hminute
  obtain ⟨_, _, rfl⟩ := List.length_eq_two.1 hsecond
  obtain ⟨_, _, rfl⟩ := List.exists_cons_of_length_eq_add_one hyear
  obtain ⟨_, _, _, rfl⟩ := List.length_eq_three.1 (Nat.succ.inj hyear)
  simp only [templateChars, List.cons_append, List.nil_append] at hcs
  rw [hcs]
  exact ⟨rfl, rfl, rfl, rfl, rfl, rfl, rfl, rfl⟩

theorem ascii_of_all {cs : List Char} (h : cs.all (fun c => c.toNat < 0x80) = true) :
    ∀ c ∈ cs, c.toNat < 0x80 := by
  intro c hc
  exact of_decide_eq_true (List.all_eq_true.1 h c hc)

theorem ascii_of_isDigits {n : ℕ} {ds : List Char} (h : IsDigits n ds) :
    ∀ c ∈ ds, c.toNat < 0x80 := by
  intro c hc
  have := toNat_of_isDigit (h.2 c hc)
  omega

theorem dayName_mem (weekday : Fin 7) : dayName weekday ∈ dayNames := List.get_mem _ _

theorem monthName_mem (d : Date) : monthName d ∈ monthNames := List.get_mem _ _

theorem ascii_names : ∀ name ∈ dayNames ++ monthNames, ∀ c ∈ name.toList, c.toNat < 0x80 := by
  intro name hname
  have hall : (dayNames ++ monthNames).all
      (fun name => name.toList.all (fun c => c.toNat < 0x80)) = true := by decide
  exact ascii_of_all (List.all_eq_true.1 hall name hname)

theorem ascii_monthName (d : Date) : ∀ c ∈ (monthName d).toList, c.toNat < 0x80 :=
  ascii_names _ (List.mem_append_right _ (monthName_mem d))

theorem getElem?_monthName (d : Date) : monthNames[d.month - 1]? = some (monthName d) :=
  List.getElem?_eq_getElem _

theorem toList_imfFixdate (weekday : Fin 7) (d : Date) (hour minute second : ℕ) :
    (imfFixdate weekday d hour minute second).toList =
      templateChars (dayName weekday).toList (twoDigits d.day) (monthName d).toList
        (fourDigits d.year) (twoDigits hour) (twoDigits minute) (twoDigits second) :=
  String.toList_ofList

section text

variable (weekday : Fin 7) {d : Date} (hyear : d.year ≤ 9999) {hour minute second : ℕ}
  (hhour : hour < 24) (hminute : minute < 60) (hsecond : second < 60)

include hyear hhour hminute hsecond

theorem template_imfFixdate : Template (imfFixdate weekday d hour minute second) := by
  have hday := d.day_le_31
  exact ⟨_, dayName_mem weekday, _, monthName_mem d, _, _, _, _, _, isDigits_twoDigits (by omega),
    isDigits_fourDigits (by omega), isDigits_twoDigits (by omega), isDigits_twoDigits (by omega),
    isDigits_twoDigits (by omega), toList_imfFixdate weekday d hour minute second⟩

theorem ascii_imfFixdate : ∀ c ∈ (imfFixdate weekday d hour minute second).toList,
    c.toNat < 0x80 := by
  obtain ⟨wd, hwd, month, hmonth, day, year, hour, minute, second, hday, hyear, hhour, hminute,
    hsecond, hs⟩ := template_imfFixdate weekday hyear hhour hminute hsecond
  rw [hs, templateChars]
  simp only [List.forall_mem_append, and_assoc]
  have hweekday := ascii_names _ (List.mem_append_left _ hwd)
  have hname := ascii_names _ (List.mem_append_right _ hmonth)
  exact ⟨hweekday, ascii_of_all rfl, ascii_of_isDigits hday, ascii_of_all rfl, hname,
    ascii_of_all rfl, ascii_of_isDigits hyear, ascii_of_all rfl, ascii_of_isDigits hhour,
    ascii_of_all rfl, ascii_of_isDigits hminute, ascii_of_all rfl, ascii_of_isDigits hsecond,
    ascii_of_all rfl⟩

/-- The parser finds the date and the time of day in the text. -/
theorem fields_imfFixdate : Fields (asBytes (imfFixdate weekday d hour minute second))
    ⟨d.year, d.month, d.day, hour, minute, second⟩ := by
  have hd := d.day_le_31
  have hmonth := d.month_pos
  have hbytes : asBytes (imfFixdate weekday d hour minute second) =
      (imfFixdate weekday d hour minute second).toList.map asciiByte := by
    rw [asBytes_eq, encode_ascii (ascii_imfFixdate weekday hyear hhour hminute hsecond)]
  obtain ⟨hlen, hgmt, hday, hmon, hyr, hhr, hmin, hsec⟩ := templateChars_positions
    (length_dayName (dayName_mem weekday)) rfl (length_monthName (monthName_mem d)) rfl rfl rfl rfl
    (toList_imfFixdate weekday d hour minute second)
  rw [hbytes]
  generalize (imfFixdate weekday d hour minute second).toList = cs at *
  have hnumber : ∀ {n}, n < 100 → Unsigned (twoDigits n) n := fun hn =>
    unsigned_of_isDigits (isDigits_twoDigits hn) (digitsValue_twoDigits hn)
  have hday' : Unsigned (twoDigits d.day) d.day := hnumber (by omega)
  have hgmt' : (" GMT".toList).map asciiByte = asBytes " GMT" := by decide
  exact
    { length := by rw [List.length_map, hlen]
      gmt := by rw [List.length_map, hlen, ← List.map_drop, hgmt, hgmt']
      day := ⟨[], _, [], by rw [field_map_asciiByte, hday, List.nil_append, List.append_nil], hday',
        by simp⟩
      month := ⟨d.month - 1, _, getElem?_monthName d, by
        rw [field_map_asciiByte, hmon, asBytes_eq, encode_ascii (ascii_monthName d)],
        (Nat.sub_add_cancel hmonth).symm⟩
      year := ⟨d.year, rfl, _, by rw [field_map_asciiByte, hyr],
        unsigned_of_isDigits (isDigits_fourDigits (by omega)) (digitsValue_fourDigits (by omega))⟩
      hour := ⟨_, by rw [field_map_asciiByte, hhr], hnumber (hhour.trans (by decide))⟩
      minute := ⟨_, by rw [field_map_asciiByte, hmin], hnumber (hminute.trans (by decide))⟩
      second := ⟨_, by rw [field_map_asciiByte, hsec], hnumber (hsecond.trans (by decide))⟩ }

end text

/-- A text that begins with neither a digit nor a sign is no integer. -/
theorem parseI64_eq_none {c : Char} (cs : List Char) (hdigit : c.isDigit = false)
    (hminus : c ≠ '-') (hplus : c ≠ '+') : parseI64 (c :: cs) = none := by
  have hparse : parseDigits (c :: cs) = none := by
    apply Option.eq_none_iff_forall_ne_some.2
    intro v hv
    have hc := (parseDigits_eq_some_iff.1 hv).1.digits c List.mem_cons_self
    rw [hdigit] at hc
    cases hc
  unfold parseI64 parseSigned
  split
  · next heq => exact absurd (List.cons_eq_cons.1 heq).1 hminus
  · next heq => exact absurd (List.cons_eq_cons.1 heq).1 hplus
  · rw [hparse]
    rfl

theorem exists_cons_dayName {name : String} (h : name ∈ dayNames) :
    ∃ c cs, name.toList = c :: cs ∧ c.isDigit = false ∧ c ≠ '-' ∧ c ≠ '+' ∧ isWhitespace c = false := by
  simp only [dayNames, List.mem_cons, List.not_mem_nil, or_false] at h
  rcases h with rfl | rfl | rfl | rfl | rfl | rfl | rfl <;>
    exact ⟨_, _, rfl, by decide, by decide, by decide, by decide⟩

/-- A date begins with a letter. -/
theorem Template.exists_cons {s : String} (h : Template s) :
    ∃ c cs, s.toList = c :: cs ∧ c.isDigit = false ∧ c ≠ '-' ∧ c ≠ '+' ∧ isWhitespace c = false := by
  obtain ⟨weekday, hweekday, _, _, _, _, _, _, _, _, _, _, _, _, hs⟩ := h
  obtain ⟨c, cs, hname, hc⟩ := exists_cons_dayName hweekday
  refine ⟨c, s.toList.tail, ?_, hc⟩
  rw [hs, hname]
  rfl

theorem Template.parseI64_eq_none {s : String} (h : Template s) : parseI64 s.toList = none := by
  obtain ⟨c, cs, hs, hdigit, hminus, hplus, -⟩ := h.exists_cons
  rw [hs]
  exact Semantik.parseI64_eq_none cs hdigit hminus hplus

theorem Template.trim_eq {s : String} (h : Template s) : trim s.toList = s.toList := by
  obtain ⟨c, cs, hs, -, -, -, hspace⟩ := h.exists_cons
  have hlast : s.toList.getLast? = some 'T' := by
    obtain ⟨_, _, _, _, _, _, _, _, _, _, _, _, _, _, hs⟩ := h
    rw [hs, templateChars, List.getLast?_append]
    rfl
  have hfirst : s.toList.head? = some c := by rw [hs]; rfl
  have htrim : trim ([] ++ s.toList ++ []) = s.toList := trim_append [] [] (by simp) (by simp)
    (by rw [hfirst]; rintro _ ⟨⟩; exact hspace) (by rw [hlast]; rintro _ ⟨⟩; decide) (by simp [hs])
  rwa [List.nil_append, List.append_nil] at htrim

/-- The wait from one time to another, if it is positive and not too long. -/
theorem wait_eq (parsed now : ℤ) (max : ℕ) :
    ((if now ≤ parsed then some (parsed - now).toNat else none).bind fun d =>
        if d = 0 ∨ max < d then none else some d) =
      if 0 < parsed - now ∧ parsed - now ≤ max then some (parsed - now).toNat else none := by
  by_cases hle : now ≤ parsed
  · rw [if_pos hle, Option.bind_some]
    by_cases hwait : 0 < parsed - now ∧ parsed - now ≤ max
    · rw [if_pos hwait, if_neg (by omega)]
    · rw [if_neg hwait, if_pos (by omega)]
  · rw [if_neg hle, if_neg (by omega), Option.bind_none]

/-- On a date in the header, the hint is the time until then, if it is positive and at most an
hour. -/
theorem parseRetryAfterHeader_date {headers : HeaderMap} {text : String} {parsed : SystemTime}
    (hheader : headers "retry-after" = some ⟨some text⟩) (htext : Template text)
    (hparsed : httpdateParse (asBytes text) = some parsed) (now : SystemTime) :
    parseRetryAfterHeader headers now =
      if 0 < parsed - now ∧ parsed - now ≤ (Duration.fromSecs 3600 : ℤ) then
        some (parsed - now).toNat
      else none := by
  have hne : text.toList ≠ [] := by
    obtain ⟨c, cs, hs, -⟩ := htext.exists_cons
    rw [hs]
    exact List.cons_ne_nil c cs
  have hmax : maxRetryAfter = Duration.fromSecs 3600 := rfl
  simp only [parseRetryAfterHeader, hheader, Option.bind_eq_bind, Option.bind_some, htext.trim_eq,
    if_neg hne, htext.parseI64_eq_none, String.ofList_toList, hparsed, durationSince, hmax]
  exact wait_eq parsed now _

theorem epoch_le {d : Date} (h : 1970 ≤ d.year) : epoch ≤ d := by
  have hmonth := d.month_pos
  have hday := d.day_pos
  rw [← not_lt, Date.lt_iff]
  change ¬ (d.year < 1970 ∨ d.year = 1970 ∧ (d.month < 1 ∨ d.month = 1 ∧ d.day < 1))
  omega

/-- Every second of the years 1970 to 9999, written as a date, is read as the seconds since the
epoch: the days that have passed, one after the other, and the time of day. Nothing wraps on the
way, and the header gives the wait until then. -/
theorem httpdate_exact (d : Date) (hfrom : 1970 ≤ d.year) (hyear : d.year ≤ 9999)
    {hour minute second : ℕ} (hhour : hour < 24) (hminute : minute < 60) (hsecond : second < 60) :
    ∃ days, epoch.after days = d ∧
      let text := imfFixdate (weekdayAfter days) d hour minute second
      let seconds := 86400 * days + 3600 * hour + 60 * minute + second
      httpdateParse (asBytes text) = some (Duration.fromSecs seconds : ℤ) ∧
        httpdateParseChecked (asBytes text) = some (some (Duration.fromSecs seconds : ℤ)) ∧
        ∀ headers now, headers "retry-after" = some ⟨some text⟩ →
          parseRetryAfterHeader headers now =
            if 0 < (Duration.fromSecs seconds : ℤ) - now ∧
                (Duration.fromSecs seconds : ℤ) - now ≤ (Duration.fromSecs 3600 : ℤ) then
              some ((Duration.fromSecs seconds : ℤ) - now).toNat
            else none := by
  obtain ⟨days, rfl⟩ := Date.exists_after (epoch_le hfrom)
  refine ⟨days, rfl, ?_⟩
  intro text seconds
  have hunix := imfToUnix_after hyear hhour hminute hsecond
  have hseconds : days * 86400 + hour * 3600 + minute * 60 + second = seconds := by
    omega
  rw [hseconds] at hunix
  have hparse : httpdateParse (asBytes text) = some (Duration.fromSecs seconds : ℤ) :=
    httpdateParse_eq_some_iff.2
      ⟨_, seconds, fields_imfFixdate _ hyear hhour hminute hsecond, hunix, rfl⟩
  refine ⟨hparse, ?_, ?_⟩
  · rw [httpdateParseChecked_eq, hparse]
  · intro headers now hheader
    exact parseRetryAfterHeader_date hheader
      (template_imfFixdate _ hyear hhour hminute hsecond) hparse now

def october21 : Date := ⟨2026, 10, 21, by decide, by decide, by decide, by decide⟩

example : imfFixdate (weekdayAfter 20747) october21 7 28 0 = "Wed, 21 Oct 2026 07:28:00 GMT" := by
  decide

theorem httpdate_exact_october21 : ∃ days, epoch.after days = october21 ∧
    let text := imfFixdate (weekdayAfter days) october21 7 28 0
    let seconds := 86400 * days + 3600 * 7 + 60 * 28 + 0
    httpdateParse (asBytes text) = some (Duration.fromSecs seconds : ℤ) ∧
      httpdateParseChecked (asBytes text) = some (some (Duration.fromSecs seconds : ℤ)) ∧
      ∀ headers now, headers "retry-after" = some ⟨some text⟩ →
        parseRetryAfterHeader headers now =
          if 0 < (Duration.fromSecs seconds : ℤ) - now ∧
              (Duration.fromSecs seconds : ℤ) - now ≤ (Duration.fromSecs 3600 : ℤ) then
            some ((Duration.fromSecs seconds : ℤ) - now).toNat
          else none :=
  httpdate_exact october21 (by decide) (by decide) (by decide) (by decide) (by decide)

end Semantik
