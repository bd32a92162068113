import RemotefsSsh.Lib.Strftime
import RemotefsSsh.LsTotal

/-!
# Modification times in the format of `ls` (utils/parser.rs:14-38)

`ls` prints the time of day of a recent change and the year of any other. `parse_lstime` reads a year as it is, and
puts the current year in its place where there is none. A time that was printed survives exactly when the year was
printed or is the current one (`parseLstime_survives_iff`).
-/

namespace RemotefsSsh

open Utf8 Effect Calendar Strftime

/-! ## Reading -/

/-- No sign, so that a year is a plain number. -/
def Unsigned (s : Str) : Prop := ∀ c ∈ s, c ≠ '+' ∧ c ≠ '-'

/-- The parsers follow the grammar of their formats. -/
structure Chrono.Reads (C : Chrono) : Prop where
  naiveDate : ∀ s, Unsigned s → C.naiveDate s "%b %d %Y".toList = readDate "%b %d %Y".toList s
  naiveDateTime : ∀ s, Unsigned s → C.naiveDateTime s "%b %d %H:%M %Y".toList = readDateTime "%b %d %H:%M %Y".toList s

/-- A month and a day as `ls` prints them. -/
def dayText (m d : Nat) (rest : Str) : Str := months.getD m [] ++ ' ' :: (padded d ++ rest)

section
variable {m d : Nat} {rest : Str}

theorem read_dayText (hm : m < 12) (hd : d < 100) (hrest : ∀ c, rest.head? = some c →
    c.isDigit = false) (is : List Item) :
    read (.monthName :: .lit ' ' :: .day :: is) {} (dayText m d rest) =
      read is { month := some (m + 1), day := some d } rest := by
  have hday : readNumber 2 (trimStart (' ' :: (padded d ++ rest))) = some (d, rest) := by
    rw [readNumber_trimStart, readNumber_blank, readNumber_padded hd hrest]
  unfold dayText
  rw [read_cons_of (readItem_monthName (readMonth_print hm _) rfl), read_cons_of (readItem_blank _ _),
    read_cons_of (readItem_day hday rfl)]

/-- A day with its year. -/
theorem readAll_year (hm : m < 12) (hd : d < 100) {y : Nat} (hy : y < 10000) :
    readAll "%b %d %Y".toList (dayText m d (' ' :: ' ' :: fixed 4 y)) =
      some { year := some y, month := some (m + 1), day := some d } := by
  have hyear : readNumber 4 (trimStart (' ' :: ' ' :: fixed 4 y)) = some (y, []) := by
    rw [readNumber_trimStart, readNumber_blank, readNumber_blank, ← List.append_nil (fixed 4 y)]
    exact readNumber_fixed (by omega) (by omega) hy (Or.inl rfl)
  have hread : read [.monthName, .lit ' ', .day, .lit ' ', .year] {} (dayText m d (' ' :: ' ' :: fixed 4 y)) =
      some ({ year := some y, month := some (m + 1), day := some d }, []) := by
    rw [read_dayText hm hd (by simp), read_cons_of (readItem_blank _ _), read_cons_of (readItem_year hyear rfl)]
    rfl
  have hitems : items "%b %d %Y".toList = some [.monthName, .lit ' ', .day, .lit ' ', .year] := rfl
  unfold readAll
  rw [hitems, Option.bind_some, hread]
  rfl

/-- The time of day. -/
def clockText (h mi : Nat) (rest : Str) : Str := ' ' :: (fixed 2 h ++ ':' :: (fixed 2 mi ++ rest))

/-- The hour is no year, for something is left behind it. -/
theorem readAll_clock_as_year (hm : m < 12) (hd : d < 100) {h mi : Nat} (hh : h < 100) :
    readAll "%b %d %Y".toList (dayText m d (clockText h mi rest)) = none := by
  have hyear : readNumber 4 (trimStart (clockText h mi rest)) = some (h, ':' :: (fixed 2 mi ++ rest)) := by
    rw [readNumber_trimStart, clockText, readNumber_blank]
    exact readNumber_fixed (by omega) (by omega) hh (Or.inr (by simp))
  have hread : read [.monthName, .lit ' ', .day, .lit ' ', .year] {} (dayText m d (clockText h mi rest)) =
      some ({ year := some h, month := some (m + 1), day := some d }, ':' :: (fixed 2 mi ++ rest)) := by
    rw [read_dayText hm hd (by simp [clockText]), read_cons_of (readItem_blank _ _),
      read_cons_of (readItem_year hyear rfl)]
    rfl
  have hitems : items "%b %d %Y".toList = some [.monthName, .lit ' ', .day, .lit ' ', .year] := rfl
  unfold readAll
  rw [hitems, Option.bind_some, hread]
  rfl

/-- A day and a time of day with a year behind them, if that has at most four digits. -/
theorem readAll_clock (hm : m < 12) (hd : d < 100) {h mi : Nat} (hh : h < 100) (hmi : mi < 100) (y : Nat) :
    readAll "%b %d %H:%M %Y".toList (dayText m d (clockText h mi (' ' :: decimal y))) =
      if y < 10000 then
        some { year := some y, month := some (m + 1), day := some d, hour := some h, minute := some mi }
      else none := by
  have hhour : readNumber 2 (trimStart (clockText h mi (' ' :: decimal y))) =
      some (h, ':' :: (fixed 2 mi ++ ' ' :: decimal y)) := by
    rw [readNumber_trimStart, clockText, readNumber_blank]
    exact readNumber_fixed (by omega) (by omega) hh (Or.inl rfl)
  have hminute : readNumber 2 (fixed 2 mi ++ ' ' :: decimal y) = some (mi, ' ' :: decimal y) :=
    readNumber_fixed (by omega) (by omega) hmi (Or.inl rfl)
  have hskip : readNumber 4 (trimStart (' ' :: decimal y)) = readNumber 4 (decimal y) := by
    rw [readNumber_trimStart, readNumber_blank]
  have hstart : ∀ is, read (.monthName :: .lit ' ' :: .day :: .lit ' ' :: .hour :: .lit ':' ::
    .minute :: .lit ' ' :: is) {}
      (dayText m d (clockText h mi (' ' :: decimal y))) =
        read is { month := some (m + 1), day := some d, hour := some h, minute := some mi }
          (trimStart (' ' :: decimal y)) := by
    intro is
    rw [read_dayText hm hd (by simp [clockText]), read_cons_of (readItem_blank _ _),
      read_cons_of (readItem_hour hhour rfl),
      read_cons_of (readItem_lit (by decide) _ _), read_cons_of (readItem_minute hminute rfl),
      read_cons_of (readItem_blank _ _)]
  have hitems : items "%b %d %H:%M %Y".toList =
      some [.monthName, .lit ' ', .day, .lit ' ', .hour, .lit ':', .minute, .lit ' ', .year] := rfl
  have hlength : (decimal y).length ≤ 4 ↔ y < 10000 := Nat.length_toDigits_le_iff (by omega) (by omega)
  unfold readAll
  rw [hitems, Option.bind_some, hstart]
  by_cases hy : y < 10000
  · have hyear := hskip.trans (readNumber_decimal (hlength.2 hy))
    rw [if_pos hy, read_cons_of (readItem_year hyear rfl)]
    rfl
  · obtain ⟨v, left, hread, hleft⟩ := readNumber_decimal_left (n := y) (w := 4) (by omega) (by omega)
    rw [if_neg hy, read_cons_of (readItem_year (hskip.trans hread) rfl)]
    exact if_neg hleft

end

/-! ## Printing -/

/-- Nanoseconds from the beginning of 1970. -/
def SystemTime.inNanos (t : SystemTime) : Int := t.secs * 1000000000 + t.nanos

/-- Not in the future, and less than half a year ago. -/
def recent (halfYear : Nat) (now mtime : SystemTime) : Bool :=
  now.inNanos - halfYear * 1000000000 < mtime.inNanos && mtime.inNanos ≤ now.inNanos

def lsFormat (clock : Bool) : Str := if clock then "%b %e %H:%M".toList else "%b %e  %Y".toList

/-- A modification time as `ls` prints it on a system in UTC. -/
def lsTime (halfYear : Nat) (now mtime : SystemTime) : Str :=
  print ((items (lsFormat (recent halfYear now mtime))).getD []) (Civil.of mtime.secs)

/-- `Utc::now().year()` -/
def yearAt (t : SystemTime) : Int := (Civil.of t.secs).year

/-- The time without what `ls` does not print. -/
structure Shown (halfYear : Nat) (now mtime t : SystemTime) : Prop where
  secs : t.secs = if recent halfYear now mtime then mtime.secs / 60 * 60 else mtime.secs / 86400 * 86400
  nanos : t.nanos = 0

theorem secs_le_of_recent {halfYear : Nat} {now mtime : SystemTime} (h : recent halfYear now mtime = true) :
    mtime.secs ≤ now.secs := by
  have hle : mtime.inNanos ≤ now.inNanos := of_decide_eq_true (Bool.and_eq_true_iff.1 h).2
  unfold SystemTime.inNanos at hle
  have hm := mtime.nanos_lt
  have hn := now.nanos_lt
  omega

/-- The date and the second of the day of a time from 1970 on. -/
def dateOf (t : SystemTime) : Date := Date.ofNumber (t.secs / 86400 + epoch).toNat

section
variable {t : SystemTime}

theorem civil_of_secs (h0 : 0 ≤ t.secs) : Civil.of t.secs = Civil.ofDate (dateOf t) (t.secs % 86400).toNat :=
  Civil.of_eq (by omega)

theorem yearAt_eq (h0 : 0 ≤ t.secs) : yearAt t = (dateOf t).year := by
  unfold yearAt
  rw [civil_of_secs h0]
  rfl

theorem number_dateOf (h0 : 0 ≤ t.secs) : ((dateOf t).number : Int) = t.secs / 86400 + epoch := by
  unfold dateOf
  rw [Date.number_ofNumber]
  omega

theorem midnight_dateOf (h0 : 0 ≤ t.secs) : midnight (dateOf t) = t.secs / 86400 * 86400 := by
  unfold midnight
  rw [number_dateOf h0]
  omega

theorem epoch_le_year (h0 : 0 ≤ t.secs) : 1970 ≤ (dateOf t).year := by
  have hlt := (dateOf t).number_lt
  have hnumber := number_dateOf h0
  by_contra hyear
  have hmono := daysBefore_mono (show (dateOf t).year + 1 ≤ 1970 by omega)
  unfold epoch at hnumber
  omega

theorem year_lt (hend : t.secs < stampEnd) : (dateOf t).year < 10000 := by
  refine yearOf_lt ?_
  have hstamp : stampEnd = 2932897 * 86400 := by decide
  have hlast : daysBefore 10000 = epoch + 2932897 := by decide
  omega

end

/-- A year printed in four digits. -/
theorem yearText_of_lt {y : Nat} (h : y < 10000) : yearText y = fixed 4 y := by
  unfold yearText
  rw [if_pos (by omega), Int.toNat_natCast]

section
variable {halfYear : Nat} {now mtime : SystemTime}

theorem lsTime_year (hrecent : recent halfYear now mtime = false) (h0 : 0 ≤ mtime.secs) (hend : mtime.secs < stampEnd) :
    lsTime halfYear now mtime =
      dayText (dateOf mtime).month ((dateOf mtime).day + 1) (' ' :: ' ' :: fixed 4 (dateOf mtime).year) := by
  have hitems : items (lsFormat false) = some [.monthName, .lit ' ', .dayBlank, .lit ' ', .lit ' ', .year] := rfl
  unfold lsTime dayText
  rw [hrecent, hitems, civil_of_secs h0, ← yearText_of_lt (year_lt hend)]
  simp [print, printItem, Civil.ofDate]

theorem lsTime_clock (hrecent : recent halfYear now mtime = true) (h0 : 0 ≤ mtime.secs) :
    lsTime halfYear now mtime =
      dayText (dateOf mtime).month ((dateOf mtime).day + 1)
        (clockText ((mtime.secs % 86400).toNat / 3600) ((mtime.secs % 86400).toNat / 60 % 60) []) := by
  have hitems : items (lsFormat true) = some [.monthName, .lit ' ', .dayBlank, .lit ' ', .hour,
    .lit ':', .minute] := rfl
  unfold lsTime dayText clockText
  rw [hrecent, hitems, civil_of_secs h0]
  simp [print, printItem, Civil.ofDate]

end

/-! ## What `parse_lstime` makes of it -/

theorem unsigned_append {a b : Str} : Unsigned (a ++ b) ↔ Unsigned a ∧ Unsigned b := List.forall_mem_append

theorem unsigned_cons {c : Char} {s : Str} (hc : c ≠ '+' ∧ c ≠ '-') (hs : Unsigned s) : Unsigned (c :: s) :=
  List.forall_mem_cons.2 ⟨hc, hs⟩

theorem unsigned_of_digits {s : Str} (h : ∀ c ∈ s, c.isDigit = true) : Unsigned s := by
  intro c hc
  have hdigit := h c hc
  refine ⟨?_, ?_⟩ <;> rintro rfl <;> cases hdigit

theorem unsigned_dayText {m n : Nat} (hm : m < 12) {rest : Str} (hrest : Unsigned rest) :
    Unsigned (dayText m n rest) := by
  have hmonth : Unsigned (months.getD m []) := by
    have hletters : (months.getD m []).all (fun c => c != '+' && c != '-') = true := by interval_cases m <;> rfl
    intro c hc
    simpa using List.all_eq_true.1 hletters c hc
  have hday : Unsigned (padded n) := by
    unfold padded
    by_cases hn : n < 10
    · rw [if_pos hn]
      refine unsigned_cons (by decide) (unsigned_of_digits fun c hc => ?_)
      rw [List.mem_singleton.1 hc, Nat.isDigit_digitChar]
      exact decide_eq_true hn
    · rw [if_neg hn]
      exact unsigned_of_digits mem_fixed
  unfold dayText
  exact unsigned_append.2 ⟨hmonth, unsigned_cons (by decide) (unsigned_append.2 ⟨hday, hrest⟩)⟩

theorem unsigned_clockText {h mi : Nat} {rest : Str} (hrest : Unsigned rest) : Unsigned (clockText h mi rest) := by
  unfold clockText
  refine unsigned_cons (by decide) (unsigned_append.2 ⟨unsigned_of_digits mem_fixed, unsigned_cons (by decide) ?_⟩)
  exact unsigned_append.2 ⟨unsigned_of_digits mem_fixed, hrest⟩

section
variable {C : Chrono} {m d h mi y : Nat}

/-- A text with a year in it. -/
theorem lsDate_year (hC : C.Reads) (hm : m < 12) (hd : d < 99) (hy : y < 10000) (thisYear : Int) :
    lsDate C thisYear (dayText m (d + 1) (' ' :: ' ' :: fixed 4 y)) "%b %d %Y".toList "%b %d %H:%M".toList =
      match Date.of y m d with
      | some date => some (midnight date)
      | none => C.naiveDateTime (dayText m (d + 1) (' ' :: ' ' :: fixed 4 y) ++ ' ' :: decimalInt thisYear)
          ("%b %d %H:%M".toList ++ " %Y".toList) := by
  have hunsigned : Unsigned (dayText m (d + 1) (' ' :: ' ' :: fixed 4 y)) :=
    unsigned_dayText hm (unsigned_cons (by decide) (unsigned_cons (by decide) (unsigned_of_digits mem_fixed)))
  have hread : C.naiveDate (dayText m (d + 1) (' ' :: ' ' :: fixed 4 y)) "%b %d %Y".toList =
      (Date.of y m d).map midnight := by
    rw [hC.naiveDate _ hunsigned, readDate, readAll_year hm (by omega) hy, Option.bind_some]
    simp [Parsed.date]
  unfold lsDate
  rw [hread]
  cases Date.of y m d <;> rfl

/-- A text with a time of day in it, in the year `y`. -/
theorem lsDate_clock (hC : C.Reads) (hm : m < 12) (hd : d < 99) (hh : h < 24) (hmi : mi < 60) (y : Nat) :
    lsDate C y (dayText m (d + 1) (clockText h mi [])) "%b %d %Y".toList "%b %d %H:%M".toList =
      if y < 10000 then (Date.of y m d).map fun date => midnight date + (h * 3600 + mi * 60 : Nat) else none := by
  have hnone : C.naiveDate (dayText m (d + 1) (clockText h mi [])) "%b %d %Y".toList = none := by
    have hunsigned : Unsigned (dayText m (d + 1) (clockText h mi [])) :=
      unsigned_dayText hm (unsigned_clockText (List.forall_mem_nil _))
    rw [hC.naiveDate _ hunsigned, readDate, readAll_clock_as_year hm (by omega) (by omega)]
    rfl
  have htext : dayText m (d + 1) (clockText h mi []) ++ ' ' :: decimalInt y =
      dayText m (d + 1) (clockText h mi (' ' :: decimal y)) := by
    have hdecimal : decimalInt y = decimal y := by
      unfold decimalInt
      rw [if_neg (by omega), Int.toNat_natCast]
    rw [hdecimal]
    simp [dayText, clockText]
  have hunsigned : Unsigned (dayText m (d + 1) (clockText h mi (' ' :: decimal y))) :=
    unsigned_dayText hm (unsigned_clockText (unsigned_cons (by decide)
      (unsigned_of_digits fun c => isDigit_of_mem_decimal)))
  have hfmt : "%b %d %H:%M".toList ++ " %Y".toList = "%b %d %H:%M %Y".toList := rfl
  unfold lsDate
  rw [hnone, htext, hfmt]
  show C.naiveDateTime _ _ = _
  rw [hC.naiveDateTime _ hunsigned, readDateTime, readAll_clock hm (by omega) (by omega) (by omega)]
  by_cases hy : y < 10000
  · rw [if_pos hy, if_pos hy]
    cases hdate : Date.of y m d <;> simp [Parsed.date, Parsed.time, hdate, hh, hmi]
  · rw [if_neg hy, if_neg hy]
    rfl

end

theorem stamp_bounds {d : Date} (hy : d.year < 10000) {s : Nat} (hs : s < 86400) :
    -9223372036854775808 ≤ midnight d + s ∧ midnight d + s < 9223372036854775808 := by
  have hlt := d.number_lt
  have hmono := daysBefore_mono (show d.year + 1 ≤ 10000 by omega)
  have hlast : daysBefore 10000 = 3652425 := by decide
  have hepoch : epoch = 719528 := by decide
  unfold midnight
  omega

theorem Date.of_fields {y m d : Nat} {date : Date} (h : Date.of y m d = some date) :
    date.year = y ∧ date.month = m ∧ date.day = d := by
  unfold Date.of at h
  split at h
  · split at h
    · cases h
      exact ⟨rfl, rfl, rfl⟩
    · cases h
  · cases h

section
variable {C : Chrono} {halfYear : Nat} {now mtime : SystemTime}

/-- A year that was printed is read again. -/
theorem shown_of_year (hC : C.Reads) (h0 : 0 ≤ mtime.secs) (hend : mtime.secs < stampEnd)
    (hrecent : recent halfYear now mtime = false) :
    ∃ t, parseLstime C (yearAt now) (lsTime halfYear now mtime) "%b %d %Y".toList "%b %d %H:%M".toList = some t ∧
      Shown halfYear now mtime t := by
  have hyear := year_lt hend
  have hday := (dateOf mtime).day_lt_31
  obtain ⟨hsecs, hnanos⟩ := timeOfStamp_secs (stamp_bounds (d := dateOf mtime) hyear (s := 0) (by omega))
  rw [parseLstime_eq, lsTime_year hrecent h0 hend, lsDate_year hC (dateOf mtime).month_lt (by omega) hyear,
    Date.of_self]
  have hzero : midnight (dateOf mtime) + (0 : Nat) = midnight (dateOf mtime) := by simp
  rw [hzero] at hsecs hnanos
  refine ⟨_, rfl, ?_, hnanos⟩
  rw [hrecent, hsecs, midnight_dateOf h0]
  simp only [Bool.false_eq_true, if_false]
  omega

/-- A time of day is put into the current year. -/
theorem parseLstime_clock (hC : C.Reads) (h0 : 0 ≤ mtime.secs) (hrecent : recent halfYear now mtime = true) :
    parseLstime C (yearAt now) (lsTime halfYear now mtime) "%b %d %Y".toList "%b %d %H:%M".toList =
      if (dateOf now).year < 10000 then
        (Date.of (dateOf now).year (dateOf mtime).month (dateOf mtime).day).map fun date =>
          timeOfStamp (midnight date + (mtime.secs % 86400 / 60 * 60).toNat)
      else none := by
  have hday := (dateOf mtime).day_lt_31
  have hnow := secs_le_of_recent hrecent
  have hminutes : (mtime.secs % 86400).toNat / 3600 * 3600 + (mtime.secs % 86400).toNat / 60 % 60 * 60 =
      (mtime.secs % 86400 / 60 * 60).toNat := by omega
  rw [parseLstime_eq, lsTime_clock hrecent h0, yearAt_eq (by omega),
    lsDate_clock hC (dateOf mtime).month_lt (by omega) (by omega) (by omega), hminutes]
  by_cases hy : (dateOf now).year < 10000
  · rw [if_pos hy, if_pos hy, Option.map_map, Function.comp_def]
  · rw [if_neg hy, if_neg hy, Option.map_none]

/-- A date that gives the time of the change again is in the year of the change. -/
theorem year_of_secs (h0 : 0 ≤ mtime.secs) {date : Date} (hy : date.year < 10000) (hfrom : 1970 ≤ date.year)
    (h : (timeOfStamp (midnight date + (mtime.secs % 86400 / 60 * 60).toNat)).secs = mtime.secs / 60 * 60) :
    date.year = (dateOf mtime).year := by
  have hmono := daysBefore_mono hfrom
  have hlo := date.daysBefore_le_number
  have hmnumber := number_dateOf h0
  have hseconds : (mtime.secs % 86400 / 60 * 60).toNat < 86400 := by omega
  rw [(timeOfStamp_secs (stamp_bounds hy hseconds)).1] at h
  have hnumber : date.number = (dateOf mtime).number := by
    unfold midnight epoch at *
    omega
  rw [← date.yearOf_number, hnumber, Date.yearOf_number]

/-- **A modification time that `ls` has printed survives exactly when the year was printed or is the current one.** -/
theorem parseLstime_survives_iff (hC : C.Reads) (halfYear : Nat) {now mtime : SystemTime} (h0 : 0 ≤ mtime.secs)
    (hend : mtime.secs < stampEnd) :
    (∃ t, parseLstime C (yearAt now) (lsTime halfYear now mtime) "%b %d %Y".toList "%b %d %H:%M".toList = some t ∧
        Shown halfYear now mtime t) ↔
      (recent halfYear now mtime = true → yearAt now = yearAt mtime) := by
  cases hrecent : recent halfYear now mtime with
  | false =>
    refine iff_of_true (shown_of_year hC h0 hend hrecent) fun h => ?_
    cases h
  | true =>
    have hnow := secs_le_of_recent hrecent
    have hyears : yearAt now = yearAt mtime ↔ (dateOf now).year = (dateOf mtime).year := by
      rw [yearAt_eq h0, yearAt_eq (by omega)]
      omega
    rw [parseLstime_clock hC h0 hrecent, hyears]
    constructor
    · rintro ⟨t, ht, hshown⟩ -
      by_cases hy : (dateOf now).year < 10000
      · rw [if_pos hy, Option.map_eq_some_iff] at ht
        obtain ⟨date, hdate, rfl⟩ := ht
        obtain ⟨hyear, -, -⟩ := Date.of_fields hdate
        have hsecs := hshown.secs
        rw [hrecent, if_pos rfl] at hsecs
        have hfrom := epoch_le_year (t := now) (by omega)
        rw [← hyear] at hy hfrom ⊢
        exact year_of_secs h0 hy hfrom hsecs
      · rw [if_neg hy] at ht
        cases ht
    · intro hyear
      have hy := year_lt hend
      have hmidnight := midnight_dateOf h0
      obtain ⟨hsecs, hnanos⟩ := timeOfStamp_secs
        (stamp_bounds hy (show (mtime.secs % 86400 / 60 * 60).toNat < 86400 by omega))
      rw [hyear rfl, if_pos hy, Date.of_self, Option.map_some]
      refine ⟨_, rfl, ?_, hnanos⟩
      rw [hrecent, if_pos rfl, hsecs, hmidnight]
      omega

end

/-! ## Over the turn of the year -/

/-- `chrono`, as far as the formats of `ls`. -/
def lsLibs : Libs where
  classes := Classes.ascii
  chrono :=
    { naiveDate := fun s fmt => readDate fmt s
      naiveDateTime := fun s fmt => readDateTime fmt s
      formatUtc := fun _ _ => none }

theorem lsLibs_reads : lsLibs.chrono.Reads := ⟨fun _ _ => rfl, fun _ _ => rfl⟩

/-- Half of a year of 365.2425 days. -/
def halfYear : Nat := 15778476

/-- The last minute of 2023, and the end of it. -/
def lastMinute : SystemTime := ⟨1704067140, 0, by decide, SystemTime.UNIX_EPOCH.nanos_lt⟩
def newYear : SystemTime := ⟨1704067200, 0, by decide, SystemTime.UNIX_EPOCH.nanos_lt⟩

theorem parseLstime_survives_same_year :
    ∃ t, parseLstime lsLibs.chrono (yearAt lastMinute) (lsTime halfYear lastMinute lastMinute) "%b %d %Y".toList
        "%b %d %H:%M".toList = some t ∧ Shown halfYear lastMinute lastMinute t :=
  (parseLstime_survives_iff lsLibs_reads halfYear (by decide) (by decide +kernel)).2 fun _ => rfl

set_option maxRecDepth 20000 in
/-- At the beginning of 2024 the last minute of 2023 is read as a time that lies almost a year ahead. -/
theorem parseLstime_moves_a_year :
    lsTime halfYear newYear lastMinute = "Dec 31 23:59".toList ∧ yearAt newYear = 2024 ∧
      ¬ ∃ t, parseLstime lsLibs.chrono (yearAt newYear) (lsTime halfYear newYear lastMinute) "%b %d %Y".toList
        "%b %d %H:%M".toList = some t ∧ Shown halfYear newYear lastMinute t := by
  have hread : parseLstime lsLibs.chrono (yearAt newYear) (lsTime halfYear newYear lastMinute) "%b %d %Y".toList
      "%b %d %H:%M".toList = some (timeOfStamp 1735689540) := by decide +kernel
  refine ⟨by decide +kernel, by decide +kernel, ?_⟩
  rw [hread]
  rintro ⟨t, ht, hshown⟩
  cases ht
  exact absurd hshown.secs (by decide +kernel)

end RemotefsSsh
