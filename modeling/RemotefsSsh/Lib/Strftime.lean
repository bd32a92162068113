import Mathlib.Tactic.IntervalCases
import RemotefsSsh.Lib.Calendar

/-!
# Dates and times as text

Formats in the notation of strftime. `print` writes what a clock shows. `readAll` reads a text the way a parser does
that does not care for padding: white space in the format stands for any white space, white space before a number is
passed over, a number is read up to the width of its field, and the name of a month in any case. The whole text has to
be read. A sign before a year is not read.
-/

namespace Strftime

open Utf8 Calendar

/-! ## Formats -/

inductive Item where
  | lit (c : Char)
  | year
  | month
  | monthName
  | day
  | dayBlank
  | hour
  | minute
  | second
deriving DecidableEq, Repr

def specifier : Char → Option Item
  | 'Y' => some .year
  | 'm' => some .month
  | 'b' => some .monthName
  | 'd' => some .day
  | 'e' => some .dayBlank
  | 'H' => some .hour
  | 'M' => some .minute
  | 'S' => some .second
  | _ => none

def items : Str → Option (List Item)
  | [] => some []
  | ['%'] => none
  | '%' :: c :: s => do return (← specifier c) :: (← items s)
  | c :: s => do return .lit c :: (← items s)

def months : List Str :=
  [['J', 'a', 'n'], ['F', 'e', 'b'], ['M', 'a', 'r'], ['A', 'p', 'r'], ['M', 'a', 'y'], ['J', 'u', 'n'],
    ['J', 'u', 'l'], ['A', 'u', 'g'], ['S', 'e', 'p'], ['O', 'c', 't'], ['N', 'o', 'v'], ['D', 'e', 'c']]

/-! ## Printing -/

/-- Two places, the first of them a blank if need be. -/
def padded (n : Nat) : Str := if n < 10 then [' ', Nat.digitChar n] else fixed 2 n

/-- Four digits; a year that needs more, or is negative, has a sign. -/
def yearText (y : Int) : Str :=
  if 0 ≤ y ∧ y < 10000 then fixed 4 y.toNat
  else (if y < 0 then '-' else '+') :: (List.replicate (4 - (decimal y.natAbs).length) '0' ++ decimal y.natAbs)

def printItem (c : Civil) : Item → Str
  | .lit ch => [ch]
  | .year => yearText c.year
  | .month => fixed 2 (c.month + 1)
  | .monthName => months.getD c.month []
  | .day => fixed 2 (c.day + 1)
  | .dayBlank => padded (c.day + 1)
  | .hour => fixed 2 c.hour
  | .minute => fixed 2 c.minute
  | .second => fixed 2 c.second

def print (is : List Item) (c : Civil) : Str := is.flatMap (printItem c)

/-! ## Reading -/

/-- What was read so far; months and days are counted from 1. -/
structure Parsed where
  year : Option Nat := none
  month : Option Nat := none
  day : Option Nat := none
  hour : Option Nat := none
  minute : Option Nat := none
  second : Option Nat := none
deriving DecidableEq, Repr

/-- A field may be there twice with one value. -/
def store (old : Option Nat) (v : Nat) : Option (Option Nat) := if old.getD v = v then some (some v) else none

/-- A number of at most `w` digits, and what follows it. -/
def readNumber (w : Nat) (s : Str) : Option (Nat × Str) :=
  let t := trimStart s
  let ds := (t.take w).takeWhile Char.isDigit
  if ds = [] then none else some (Nat.ofDigitChars 10 ds 0, t.drop ds.length)

def readMonth (s : Str) : Option (Nat × Str) :=
  (months.findIdx? fun m => m.map Char.toLower = (s.take 3).map Char.toLower).map fun i => (i + 1, s.drop 3)

def readItem (p : Parsed) (s : Str) : Item → Option (Parsed × Str)
  | .lit c => if isWhite c then some (p, trimStart s) else if s.head? = some c then some (p, s.drop 1) else none
  | .year => do
    let (n, s) ← readNumber 4 s
    return ({ p with year := ← store p.year n }, s)
  | .month => do
    let (n, s) ← readNumber 2 s
    return ({ p with month := ← store p.month n }, s)
  | .monthName => do
    let (n, s) ← readMonth s
    return ({ p with month := ← store p.month n }, s)
  | .day | .dayBlank => do
    let (n, s) ← readNumber 2 s
    return ({ p with day := ← store p.day n }, s)
  | .hour => do
    let (n, s) ← readNumber 2 s
    return ({ p with hour := ← store p.hour n }, s)
  | .minute => do
    let (n, s) ← readNumber 2 s
    return ({ p with minute := ← store p.minute n }, s)
  | .second => do
    let (n, s) ← readNumber 2 s
    return ({ p with second := ← store p.second n }, s)

def read : List Item → Parsed → Str → Option (Parsed × Str)
  | [], p, s => some (p, s)
  | i :: is, p, s => (readItem p s i).bind fun r => read is r.1 r.2

def readAll (fmt s : Str) : Option Parsed :=
  (items fmt).bind fun is => (read is {} s).bind fun r => if r.2 = [] then some r.1 else none

namespace Parsed

def date (p : Parsed) : Option Date := do
  let month ← p.month
  let day ← p.day
  if 1 ≤ month ∧ 1 ≤ day then Date.of (← p.year) (month - 1) (day - 1) else none

/-- The seconds of the day. -/
def time (p : Parsed) : Option Nat := do
  let hour ← p.hour
  let minute ← p.minute
  let second := p.second.getD 0
  if hour < 24 ∧ minute < 60 ∧ second < 60 then some (hour * 3600 + minute * 60 + second) else none

end Parsed

/-- The first second of the day, counted from the beginning of 1970. -/
def midnight (d : Date) : Int := (d.number - epoch : Int) * 86400

def readDate (fmt s : Str) : Option Int := (readAll fmt s).bind fun p => p.date.map midnight

def readDateTime (fmt s : Str) : Option Int := do
  let p ← readAll fmt s
  return midnight (← p.date) + (← p.time)

/-! ## Reading what was printed -/

/-- A number ends where its width does, or where no digit follows. -/
theorem readNumber_append {w : Nat} {a ds rest : Str} (ha : Blank a) (hds : ∀ c ∈ ds, c.isDigit = true) (hne : ds ≠ [])
    (hle : ds.length ≤ w) (hstop : ds.length = w ∨ ∀ c, rest.head? = some c → c.isDigit = false) :
    readNumber w (a ++ (ds ++ rest)) = some (Nat.ofDigitChars 10 ds 0, rest) := by
  have hhead : ∀ c, (ds ++ rest).head? = some c → isWhite c = false := by
    intro c hc
    rw [List.head?_append_of_ne_nil _ hne] at hc
    exact isWhite_of_isDigit (hds c (List.mem_of_head? hc))
  have hdigits : ((ds ++ rest).take w).takeWhile Char.isDigit = ds := by
    rw [List.take_append, List.take_of_length_le hle, List.takeWhile_append_of_pos hds]
    rcases hstop with hw | hend
    · rw [hw, Nat.sub_self, List.take_zero, List.takeWhile_nil, List.append_nil]
    · cases rest with
      | nil => simp
      | cons c rest =>
        have hc : c.isDigit = false := hend c rfl
        cases h : w - ds.length with
        | zero => simp
        | succ k => simp [hc]
  unfold readNumber
  rw [trimStart_append ha hhead]
  simp only [hdigits, hne, if_false, List.drop_left]

theorem readNumber_trimStart (w : Nat) (s : Str) : readNumber w (trimStart s) = readNumber w s := by
  have hid : trimStart (trimStart s) = trimStart s := by
    unfold trimStart
    rw [List.dropWhile_idempotent]
  unfold readNumber
  rw [hid]

theorem readNumber_blank (w : Nat) (s : Str) : readNumber w (' ' :: s) = readNumber w s := by
  have hskip : trimStart (' ' :: s) = trimStart s := by
    unfold trimStart
    rw [List.dropWhile_cons_of_pos isWhite_space]
  rw [← readNumber_trimStart, hskip, readNumber_trimStart]

theorem mem_fixed {k n : Nat} : ∀ c ∈ fixed k n, c.isDigit = true := List.all_eq_true.1 (isDigit_fixed k n)

theorem readNumber_fixed {w k n : Nat} (hk : 0 < k) (hkw : k ≤ w) (h : n < 10 ^ k) {rest : Str}
    (hstop : k = w ∨ ∀ c, rest.head? = some c → c.isDigit = false) :
    readNumber w (fixed k n ++ rest) = some (n, rest) := by
  have hlength := length_fixed k n
  have hne : fixed k n ≠ [] := List.ne_nil_of_length_pos (by omega)
  have hread := @readNumber_append w [] (fixed k n) rest (by simp [Blank]) mem_fixed hne (by omega)
    (hstop.imp_left fun h => by omega)
  rw [ofDigitChars_fixed, Nat.mod_eq_of_lt h] at hread
  exact hread

theorem readNumber_padded {n : Nat} (h : n < 100) {rest : Str} (hrest : ∀ c, rest.head? = some c → c.isDigit = false) :
    readNumber 2 (padded n ++ rest) = some (n, rest) := by
  unfold padded
  by_cases hn : n < 10
  · have hfixed : [' ', Nat.digitChar n] ++ rest = ' ' :: (fixed 1 n ++ rest) := by
      simp [fixed, Nat.mod_eq_of_lt hn]
    rw [if_pos hn, hfixed, readNumber_blank]
    exact readNumber_fixed Nat.one_pos (by omega) (by omega) (Or.inr hrest)
  · rw [if_neg hn]
    exact readNumber_fixed Nat.two_pos (Nat.le_refl 2) (by omega) (Or.inl rfl)

/-- A numeral that is not wider than its field. -/
theorem readNumber_decimal {w n : Nat} (hw : (decimal n).length ≤ w) : readNumber w (decimal n) = some (n, []) := by
  have hread := @readNumber_append w [] (decimal n) [] (by simp [Blank]) (fun c => isDigit_of_mem_decimal)
    (decimal_ne_nil n) hw (Or.inr (by simp))
  have hvalue : Nat.ofDigitChars 10 (decimal n) 0 = n := by simp [decimal]
  rw [hvalue, List.nil_append, List.append_nil] at hread
  exact hread

/-- Of a wider numeral something is left. -/
theorem readNumber_decimal_left {w n : Nat} (hw : w < (decimal n).length) (h0 : 0 < w) :
    ∃ v rest, readNumber w (decimal n) = some (v, rest) ∧ rest ≠ [] := by
  have hlength : ((decimal n).take w).length = w := by
    rw [List.length_take]
    omega
  have hread := @readNumber_append w [] ((decimal n).take w) ((decimal n).drop w) (by simp [Blank])
    (fun c hc => isDigit_of_mem_decimal (List.mem_of_mem_take hc)) (List.ne_nil_of_length_pos (by omega)) (by omega)
    (Or.inl hlength)
  rw [List.take_append_drop, List.nil_append] at hread
  refine ⟨_, _, hread, List.ne_nil_of_length_pos ?_⟩
  rw [List.length_drop]
  omega

theorem readMonth_print {m : Nat} (h : m < 12) (rest : Str) :
    readMonth (months.getD m [] ++ rest) = some (m + 1, rest) := by
  interval_cases m <;> rfl

/-! ## One item after the other -/

theorem readItem_blank (p : Parsed) (s : Str) : readItem p s (.lit ' ') = some (p, trimStart s) := rfl

theorem readItem_lit {c : Char} (hc : isWhite c = false) (p : Parsed) (s : Str) :
    readItem p (c :: s) (.lit c) = some (p, s) := by simp [readItem, hc]

section
variable {p : Parsed} {s t : Str} {n : Nat}

theorem readItem_year (h : readNumber 4 s = some (n, t)) (hp : p.year = none) :
    readItem p s .year = some ({ p with year := some n }, t) := by simp [readItem, h, hp, store]

theorem readItem_monthName (h : readMonth s = some (n, t)) (hp : p.month = none) :
    readItem p s .monthName = some ({ p with month := some n }, t) := by simp [readItem, h, hp, store]

theorem readItem_day (h : readNumber 2 s = some (n, t)) (hp : p.day = none) :
    readItem p s .day = some ({ p with day := some n }, t) := by simp [readItem, h, hp, store]

theorem readItem_hour (h : readNumber 2 s = some (n, t)) (hp : p.hour = none) :
    readItem p s .hour = some ({ p with hour := some n }, t) := by simp [readItem, h, hp, store]

theorem readItem_minute (h : readNumber 2 s = some (n, t)) (hp : p.minute = none) :
    readItem p s .minute = some ({ p with minute := some n }, t) := by simp [readItem, h, hp, store]

end

theorem read_cons_of {i : Item} {is : List Item} {p q : Parsed} {s t : Str} (h : readItem p s i = some (q, t)) :
    read (i :: is) p s = read is q t := by
  rw [read, h, Option.bind_some]

end Strftime
