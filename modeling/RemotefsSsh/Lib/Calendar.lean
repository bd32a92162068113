import Mathlib.Algebra.Ring.Nat
import Mathlib.Data.Nat.Find
import RemotefsSsh.Lib.Text

/-!
# Dates and their numbers

The Gregorian calendar, extended to the year 0. A `Date` is a valid one by construction; its `number`
counts the days from the first day of the year 0, and `Date.ofNumber` finds it again.

`stamp` writes a moment as `CCYYMMDDhhmm.SS`, the form `touch -t` takes, and `readStamp` reads it.
-/

namespace Calendar

open Utf8

/-! ## Years -/

def leap (y : Nat) : Bool := y % 4 = 0 && (y % 100 ≠ 0 || y % 400 = 0)

/-- The days of the years before `y`. -/
def daysBefore (y : Nat) : Nat := 365 * y + (y + 3) / 4 - (y + 99) / 100 + (y + 399) / 400

theorem daysBefore_succ (y : Nat) : daysBefore (y + 1) = daysBefore y + if leap y then 366 else 365 := by
  -- each of the three counts goes up by one in the years it divides
  have step4 : (y + 1 + 3) / 4 = (y + 3) / 4 + if y % 4 = 0 then 1 else 0 := by split <;> omega
  have step100 : (y + 1 + 99) / 100 = (y + 99) / 100 + if y % 100 = 0 then 1 else 0 := by split <;> omega
  have step400 : (y + 1 + 399) / 400 = (y + 399) / 400 + if y % 400 = 0 then 1 else 0 := by split <;> omega
  have hle : (y + 99) / 100 ≤ 365 * y + (y + 3) / 4 := by omega
  have h100 : y % 100 = 0 → y % 4 = 0 := by omega
  have h400 : y % 400 = 0 → y % 100 = 0 := by omega
  unfold daysBefore leap
  rw [step4, step100, step400]
  generalize (y + 3) / 4 = a at hle ⊢
  generalize (y + 99) / 100 = b at hle ⊢
  generalize (y + 399) / 400 = c
  by_cases e4 : y % 4 = 0 <;> by_cases e100 : y % 100 = 0 <;> by_cases e400 : y % 400 = 0 <;>
    simp only [e4, e100, e400, true_imp_iff] at h100 h400 <;>
    simp [e4, e100, e400] <;> omega

theorem daysBefore_mono {y z : Nat} (h : y ≤ z) : daysBefore y ≤ daysBefore z := by
  induction h with
  | refl => exact Nat.le_refl _
  | step _ ih => rw [daysBefore_succ]; omega

theorem le_daysBefore (y : Nat) : 365 * y ≤ daysBefore y := by
  unfold daysBefore
  omega

/-- The year of a day. -/
def yearOf (n : Nat) : Nat := Nat.findGreatest (fun y => daysBefore y ≤ n) (n / 365)

theorem daysBefore_yearOf (n : Nat) : daysBefore (yearOf n) ≤ n :=
  Nat.findGreatest_spec (P := fun y => daysBefore y ≤ n) (Nat.zero_le _) (Nat.zero_le n)

theorem lt_daysBefore_yearOf (n : Nat) : n < daysBefore (yearOf n + 1) := by
  by_contra hle
  have hbound := le_daysBefore (yearOf n + 1)
  have hyear : yearOf n + 1 ≤ n / 365 := by omega
  exact Nat.findGreatest_is_greatest (P := fun y => daysBefore y ≤ n) (Nat.lt_succ_self _) hyear (Nat.le_of_not_lt hle)

/-- A year that begins by then is not later. -/
theorem yearOf_lt {n y : Nat} (h : n < daysBefore y) : yearOf n < y := by
  by_contra hle
  have hmono := daysBefore_mono (Nat.le_of_not_lt hle)
  have := daysBefore_yearOf n
  omega

/-! ## Parts -/

/-- Which of the parts of the given lengths `n` is in, and where. -/
def part : List Nat → Nat → Nat × Nat
  | [], n => (0, n)
  | l :: ls, n => if n < l then (0, n) else ((part ls (n - l)).1 + 1, (part ls (n - l)).2)

theorem part_spec {ls : List Nat} {n : Nat} (h : n < ls.sum) :
    (part ls n).1 < ls.length ∧ (part ls n).2 < ls.getD (part ls n).1 0 ∧
      (ls.take (part ls n).1).sum + (part ls n).2 = n := by
  induction ls generalizing n with
  | nil => simp at h
  | cons l ls ih =>
    unfold part
    by_cases hl : n < l
    · simp [hl]
    · have hrest : n - l < ls.sum := by simp at h; omega
      obtain ⟨h1, h2, h3⟩ := ih hrest
      simp only [hl, if_false]
      refine ⟨by simpa using h1, by simpa using h2, ?_⟩
      simp only [List.take_succ_cons, List.sum_cons]
      omega

/-! ## Dates -/

def monthDays (leap : Bool) : List Nat := [31, if leap then 29 else 28, 31, 30, 31, 30, 31, 31, 30, 31, 30, 31]

theorem sum_monthDays (b : Bool) : (monthDays b).sum = if b then 366 else 365 := by cases b <;> rfl

theorem monthDays_le (b : Bool) : ∀ m < 12, (monthDays b).getD m 0 ≤ 31 := by cases b <;> decide

/-- Months and days are counted from 0. -/
structure Date where
  year : Nat
  month : Nat
  day : Nat
  month_lt : month < 12
  day_lt : day < (monthDays (leap year)).getD month 0

/-- The days before this one. -/
def Date.number (d : Date) : Nat := daysBefore d.year + ((monthDays (leap d.year)).take d.month).sum + d.day

theorem dayOfYear_lt (n : Nat) : n - daysBefore (yearOf n) < (monthDays (leap (yearOf n))).sum := by
  have hlo := daysBefore_yearOf n
  have hhi := lt_daysBefore_yearOf n
  rw [daysBefore_succ] at hhi
  rw [sum_monthDays]
  omega

def Date.ofNumber (n : Nat) : Date where
  year := yearOf n
  month := (part (monthDays (leap (yearOf n))) (n - daysBefore (yearOf n))).1
  day := (part (monthDays (leap (yearOf n))) (n - daysBefore (yearOf n))).2
  month_lt := (part_spec (dayOfYear_lt n)).1
  day_lt := (part_spec (dayOfYear_lt n)).2.1

theorem Date.number_ofNumber (n : Nat) : (Date.ofNumber n).number = n := by
  have hparts := (part_spec (dayOfYear_lt n)).2.2
  have hlo := daysBefore_yearOf n
  unfold number ofNumber
  dsimp only
  omega

theorem Date.day_lt_31 (d : Date) : d.day < 31 := lt_of_lt_of_le d.day_lt (monthDays_le _ _ d.month_lt)

/-- The date of that year, month and day, if there is one. -/
def Date.of (year month day : Nat) : Option Date :=
  if hm : month < 12 then
    if hd : day < (monthDays (leap year)).getD month 0 then some ⟨year, month, day, hm, hd⟩ else none
  else none

theorem Date.of_self (d : Date) : Date.of d.year d.month d.day = some d := by
  unfold of
  rw [dif_pos d.month_lt, dif_pos d.day_lt]

/-! ## The number of a date -/

/-- A year is known by one of its days. -/
theorem yearOf_unique {n y : Nat} (hlo : daysBefore y ≤ n) (hhi : n < daysBefore (y + 1)) : yearOf n = y := by
  have hlt := yearOf_lt hhi
  have hge := lt_daysBefore_yearOf n
  by_contra hne
  have hmono := daysBefore_mono (show yearOf n + 1 ≤ y by omega)
  omega

theorem part_sum {ls : List Nat} {i d : Nat} (h : d < ls.getD i 0) : part ls ((ls.take i).sum + d) = (i, d) := by
  induction ls generalizing i with
  | nil => simp at h
  | cons l ls ih =>
    cases i with
    | zero =>
      have hd : d < l := by simpa using h
      simp [part, hd]
    | succ i =>
      have hi : d < ls.getD i 0 := by simpa using h
      have hsum : ((l :: ls).take (i + 1)).sum + d = l + ((ls.take i).sum + d) := by
        rw [List.take_succ_cons, List.sum_cons, Nat.add_assoc]
      have hnot : ¬ l + ((ls.take i).sum + d) < l := by omega
      rw [hsum, part, if_neg hnot, Nat.add_sub_cancel_left, ih hi]

theorem sum_take_lt {ls : List Nat} {i d : Nat} (h : d < ls.getD i 0) : (ls.take i).sum + d < ls.sum := by
  induction ls generalizing i with
  | nil => simp at h
  | cons l ls ih =>
    cases i with
    | zero =>
      have hd : d < l := by simpa using h
      simp
      omega
    | succ i =>
      have hi := ih (by simpa using h)
      rw [List.take_succ_cons, List.sum_cons, List.sum_cons]
      omega

namespace Date

variable (d : Date)

theorem daysBefore_le_number : daysBefore d.year ≤ d.number := by
  unfold number
  omega

theorem number_lt : d.number < daysBefore (d.year + 1) := by
  have h := sum_take_lt d.day_lt
  rw [sum_monthDays] at h
  rw [daysBefore_succ]
  unfold number
  omega

theorem yearOf_number : yearOf d.number = d.year := yearOf_unique d.daysBefore_le_number d.number_lt

theorem ofNumber_number : ofNumber d.number = d := by
  have hyear := d.yearOf_number
  have hrest : d.number - daysBefore d.year = ((monthDays (leap d.year)).take d.month).sum + d.day := by
    unfold number
    omega
  obtain ⟨y, m, k, hm, hk⟩ := d
  simp only at hyear hrest
  unfold ofNumber
  simp only [hyear, hrest, part_sum hk]

end Date

/-- 1 January 1970. -/
def epoch : Nat := daysBefore 1970

/-! ## Clocks -/

theorem leap_cycle (y k : Nat) : leap (y + 400 * k) = leap y := by
  have h4 : (y + 400 * k) % 4 = y % 4 := by omega
  have h100 : (y + 400 * k) % 100 = y % 100 := by omega
  have h400 : (y + 400 * k) % 400 = y % 400 := by omega
  unfold leap
  rw [h4, h100, h400]

theorem daysBefore_cycle (y k : Nat) : daysBefore (y + 400 * k) = daysBefore y + 146097 * k := by
  unfold daysBefore
  omega

/-- The date `k` times 400 years later. -/
def Date.later (d : Date) (k : Nat) : Date where
  year := d.year + 400 * k
  month := d.month
  day := d.day
  month_lt := d.month_lt
  day_lt := by rw [leap_cycle]; exact d.day_lt

theorem Date.number_later (d : Date) (k : Nat) : (d.later k).number = d.number + 146097 * k := by
  unfold number later
  dsimp only
  rw [leap_cycle, daysBefore_cycle]
  omega

/-- The calendar repeats after 400 years. -/
theorem Date.ofNumber_cycle (n k : Nat) : Date.ofNumber (n + 146097 * k) = (Date.ofNumber n).later k := by
  rw [← ofNumber_number ((ofNumber n).later k), number_later, number_ofNumber]

/-- What a clock and a calendar show, in any year. Months and days are counted from 0. -/
structure Civil where
  year : Int
  month : Nat
  day : Nat
  hour : Nat
  minute : Nat
  second : Nat
deriving DecidableEq, Repr

/-- The second `t`, counted from the beginning of 1970. -/
def Civil.of (t : Int) : Civil where
  year := 400 * ((t / 86400 + epoch) / 146097) + (Date.ofNumber ((t / 86400 + epoch) % 146097).toNat).year
  month := (Date.ofNumber ((t / 86400 + epoch) % 146097).toNat).month
  day := (Date.ofNumber ((t / 86400 + epoch) % 146097).toNat).day
  hour := (t / 3600 % 24).toNat
  minute := (t / 60 % 60).toNat
  second := (t % 60).toNat

/-- The date and the time of day. -/
def Civil.ofDate (d : Date) (s : Nat) : Civil := ⟨d.year, d.month, d.day, s / 3600, s / 60 % 60, s % 60⟩

/-- From the year 0 on the date is the one of its number. -/
theorem Civil.of_eq {t : Int} (h : 0 ≤ t / 86400 + epoch) :
    Civil.of t = Civil.ofDate (Date.ofNumber (t / 86400 + epoch).toNat) (t % 86400).toNat := by
  obtain ⟨n, hn⟩ := Int.eq_ofNat_of_zero_le h
  have hcycle : Date.ofNumber n = (Date.ofNumber (n % 146097)).later (n / 146097) := by
    rw [← Date.ofNumber_cycle]
    congr 1
    omega
  have hrest : ((t / 86400 + epoch) % 146097).toNat = n % 146097 := by omega
  have hyears : (t / 86400 + epoch) / 146097 = (n / 146097 : Nat) := by omega
  unfold Civil.of Civil.ofDate
  rw [hrest, hyears, hn, Int.toNat_natCast, hcycle]
  simp only [Date.later, Civil.mk.injEq, true_and]
  refine ⟨by omega, by omega, by omega, by omega⟩

/-- Before the year 0 the years are negative. -/
theorem Civil.number_nonneg {t : Int} (h : 0 ≤ (Civil.of t).year) : 0 ≤ t / 86400 + epoch := by
  have hcycle : (Date.ofNumber ((t / 86400 + epoch) % 146097).toNat).year < 400 := by
    refine yearOf_lt ?_
    have hdays : daysBefore 400 = 146097 := by decide
    omega
  unfold Civil.of at h
  dsimp only at h
  omega

/-! ## Numerals of a fixed width -/

def fixed : Nat → Nat → Str
  | 0, _ => []
  | k + 1, n => fixed k (n / 10) ++ [Nat.digitChar (n % 10)]

/-- A numeral of `k` digits, and what follows it. -/
def readFixed (k : Nat) (s : Str) : Option (Nat × Str) :=
  if (s.take k).length = k ∧ (s.take k).all Char.isDigit = true then some (Nat.ofDigitChars 10 (s.take k) 0, s.drop k)
  else none

theorem length_fixed (k n : Nat) : (fixed k n).length = k := by
  induction k generalizing n with
  | zero => rfl
  | succ k ih => rw [fixed, List.length_append, ih]; rfl

theorem isDigit_fixed (k n : Nat) : (fixed k n).all Char.isDigit = true := by
  induction k generalizing n with
  | zero => rfl
  | succ k ih =>
    have hdigit : (Nat.digitChar (n % 10)).isDigit = true := by
      rw [Nat.isDigit_digitChar]
      exact decide_eq_true (Nat.mod_lt _ (by decide))
    rw [fixed, List.all_append, ih]
    simp [hdigit]

theorem ofDigitChars_fixed (k n : Nat) : Nat.ofDigitChars 10 (fixed k n) 0 = n % 10 ^ k := by
  induction k generalizing n with
  | zero => simp [fixed, Nat.mod_one]
  | succ k ih =>
    rw [fixed, Nat.ofDigitChars_append, ih, Nat.ofDigitChars_cons_digitChar_of_lt_ten (Nat.mod_lt _ (by decide)),
      Nat.ofDigitChars_nil, Nat.pow_succ', Nat.mod_mul]
    omega

theorem readFixed_fixed {k n : Nat} (h : n < 10 ^ k) (t : Str) : readFixed k (fixed k n ++ t) = some (n, t) := by
  have hlength := length_fixed k n
  have htake : (fixed k n ++ t).take k = fixed k n := List.take_left' hlength
  have hdrop : (fixed k n ++ t).drop k = t := List.drop_left' hlength
  unfold readFixed
  rw [htake, hdrop, if_pos ⟨hlength, isDigit_fixed k n⟩, ofDigitChars_fixed, Nat.mod_eq_of_lt h]

/-! ## Moments -/

/-- `CCYYMMDDhhmm.SS` of the second `t`, counted from the beginning of 1970. -/
def stamp (t : Nat) : Str :=
  let d := Date.ofNumber (epoch + t / 86400)
  fixed 4 d.year ++ (fixed 2 (d.month + 1) ++ (fixed 2 (d.day + 1) ++
    (fixed 2 (t / 3600 % 24) ++ (fixed 2 (t / 60 % 60) ++ '.' :: fixed 2 (t % 60)))))

/-- The second that `CCYYMMDDhhmm.SS` stands for, counted from the beginning of 1970 on the same clock. -/
def readStamp (s : Str) : Option Int := do
  let (year, s) ← readFixed 4 s
  let (month, s) ← readFixed 2 s
  let (day, s) ← readFixed 2 s
  let (hour, s) ← readFixed 2 s
  let (minute, s) ← readFixed 2 s
  guard (s.head? = some '.')
  let (second, s) ← readFixed 2 (s.drop 1)
  guard (s = [] ∧ 1 ≤ month ∧ 1 ≤ day ∧ hour < 24 ∧ minute < 60 ∧ second ≤ 60)
  let d ← Date.of year (month - 1) (day - 1)
  pure ((d.number - epoch : Int) * 86400 + hour * 3600 + minute * 60 + second)

section
variable {α : Type} {f : Unit → Option α} {g : Nat × Str → Option α}

theorem guard_bind {p : Prop} [Decidable p] (h : p) : (guard p >>= f) = f () := by
  have hguard : (guard p : Option Unit) = some () := if_pos h
  rw [hguard]
  rfl

theorem readFixed_bind {k n : Nat} (h : n < 10 ^ k) (rest : Str) :
    (readFixed k (fixed k n ++ rest) >>= g) = g (n, rest) := by
  rw [readFixed_fixed h]
  rfl

end

/-- The seconds before the year 10000. -/
def stampEnd : Nat := (daysBefore 10000 - epoch) * 86400

/-- `CCYYMMDDhhmm.SS` of the second `s` of the date. -/
def stampOf (d : Date) (s : Nat) : Str :=
  fixed 4 d.year ++ (fixed 2 (d.month + 1) ++ (fixed 2 (d.day + 1) ++
    (fixed 2 (s / 3600) ++ (fixed 2 (s / 60 % 60) ++ '.' :: fixed 2 (s % 60)))))

theorem stamp_eq (t : Nat) : stamp t = stampOf (Date.ofNumber (epoch + t / 86400)) (t % 86400) := by
  have hhour : t % 86400 / 3600 = t / 3600 % 24 := by omega
  have hminute : t % 86400 / 60 % 60 = t / 60 % 60 := by omega
  have hsecond : t % 86400 % 60 = t % 60 := by omega
  unfold stamp stampOf
  rw [hhour, hminute, hsecond]

theorem readStamp_stampOf {d : Date} (hyear : d.year < 10000) {s : Nat} (hs : s < 86400) :
    readStamp (stampOf d s) = some ((d.number - epoch : Int) * 86400 + s) := by
  have hof := d.of_self
  have hmonth := d.month_lt
  have hday := d.day_lt_31
  unfold readStamp stampOf
  rw [← List.append_nil (fixed 2 (s % 60))]
  -- the fields one after the other
  refine (readFixed_bind (show d.year < 10 ^ 4 by omega) _).trans ?_
  refine (readFixed_bind (show d.month + 1 < 10 ^ 2 by omega) _).trans ?_
  refine (readFixed_bind (show d.day + 1 < 10 ^ 2 by omega) _).trans ?_
  refine (readFixed_bind (show s / 3600 < 10 ^ 2 by omega) _).trans ?_
  refine (readFixed_bind (show s / 60 % 60 < 10 ^ 2 by omega) _).trans ?_
  refine (guard_bind rfl).trans ?_
  refine (readFixed_bind (show s % 60 < 10 ^ 2 by omega) _).trans ?_
  refine (guard_bind ⟨rfl, by omega, by omega, by omega, Nat.mod_lt _ (by decide), by omega⟩).trans ?_
  rw [Nat.add_sub_cancel, Nat.add_sub_cancel, hof, Option.bind_eq_bind, Option.bind_some]
  show some _ = some _
  generalize epoch = e
  congr 1
  omega

/-- **A stamp reads back as the second it was written for.** -/
theorem readStamp_stamp {t : Nat} (h : t < stampEnd) : readStamp (stamp t) = some (t : Int) := by
  have hyear : (Date.ofNumber (epoch + t / 86400)).year < 10000 := by
    refine yearOf_lt ?_
    have hend : stampEnd = 2932897 * 86400 := by decide
    have hlast : daysBefore 10000 = epoch + 2932897 := by decide
    omega
  rw [stamp_eq, readStamp_stampOf hyear (Nat.mod_lt t (by decide)), Date.number_ofNumber]
  congr 1
  omega

end Calendar
