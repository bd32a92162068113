import RemotefsSsh.LsTime
import RemotefsSsh.Quoting

/-!
# Times in the format of `touch` (utils/fmt.rs:10)

The conversion panics for a year that `chrono` does not know. What it prints of any other is read back by `touch -t` as
the same date and time, if the year has four digits, and not at all otherwise (`readTouch_civilStamp`).
-/

namespace RemotefsSsh

open Utf8 Calendar Strftime

/-! ## Printing a time, and reading it -/

/-- `%Y%m%d%H%M.%S` in UTC. -/
def civilStamp (t : SystemTime) : Str := print ((items "%Y%m%d%H%M.%S".toList).getD []) (Civil.of t.secs)

def Known (first last : Int) (t : SystemTime) : Prop := first ≤ yearAt t ∧ yearAt t ≤ last

/-- Times in the years from `first` to `last` are printed; the conversion of any other panics. -/
structure Chrono.Formats (C : Chrono) (first last : Int) : Prop where
  known : ∀ t, Known first last t → C.formatUtc t "%Y%m%d%H%M.%S".toList = some (civilStamp t)
  unknown : ∀ t, ¬ Known first last t → C.formatUtc t "%Y%m%d%H%M.%S".toList = none

/-- `[[CC]YY]MMDDhhmm.SS`: the second it stands for on the clock that shows it. Two digits are a year from 1969 to
2068, and none are this year. -/
def readTouch (thisYear : Nat) (s : Str) : Option Int :=
  match (s.takeWhile (· != '.')).length with
  | 12 => readStamp s
  | 10 => (readFixed 2 s).bind fun r => readStamp (fixed 2 (if r.1 < 69 then 20 else 19) ++ s)
  | 8 => readStamp (fixed 4 thisYear ++ s)
  | _ => none

/-- A year of four digits. -/
def FourDigits (t : SystemTime) : Prop := 0 ≤ yearAt t ∧ yearAt t < 10000

instance (t : SystemTime) : Decidable (FourDigits t) := inferInstanceAs (Decidable (_ ∧ _))

theorem items_stamp : items "%Y%m%d%H%M.%S".toList =
    some [.year, .month, .day, .hour, .minute, .lit '.', .second] := rfl

/-- A year, and what is printed behind it. -/
theorem civilStamp_eq (t : SystemTime) : civilStamp t = yearText (yearAt t) ++ (fixed 2 ((Civil.of t.secs).month + 1) ++
    (fixed 2 ((Civil.of t.secs).day + 1) ++ (fixed 2 (Civil.of t.secs).hour ++ (fixed 2 (Civil.of t.secs).minute ++
      '.' :: fixed 2 (Civil.of t.secs).second)))) := by
  unfold civilStamp
  rw [items_stamp]
  simp [print, printItem, yearAt]

theorem dot_not_mem_fixed (k n : Nat) : ∀ c ∈ fixed k n, (c != '.') = true := by
  intro c hc
  have hdigit := mem_fixed c hc
  rw [bne_iff_ne]
  rintro rfl
  cases hdigit

theorem yearText_cases (y : Int) : (0 ≤ y ∧ y < 10000 ∧ yearText y = fixed 4 y.toNat) ∨
    (¬ (0 ≤ y ∧ y < 10000) ∧ 5 ≤ (yearText y).length ∧ ∀ c ∈ yearText y, (c != '.') = true) := by
  unfold yearText
  by_cases hy : 0 ≤ y ∧ y < 10000
  · exact Or.inl ⟨hy.1, hy.2, if_pos hy⟩
  · refine Or.inr ⟨hy, ?_, ?_⟩
    · rw [if_neg hy, List.length_cons, List.length_append, List.length_replicate]
      omega
    · rw [if_neg hy]
      intro c hc
      rw [List.mem_cons, List.mem_append] at hc
      rcases hc with rfl | hc | hc
      · split <;> decide
      · rw [List.eq_of_mem_replicate hc]
        decide
      · have hdigit := isDigit_of_mem_decimal hc
        rw [bne_iff_ne]
        rintro rfl
        cases hdigit

/-- In a year of four digits a stamp is one of its date. -/
theorem civilStamp_eq_stampOf {t : SystemTime} (h : FourDigits t) :
    (dateOf t).year < 10000 ∧ civilStamp t = stampOf (dateOf t) (t.secs % 86400).toNat := by
  have hnumber : 0 ≤ t.secs / 86400 + epoch := Civil.number_nonneg h.1
  have hcivil : Civil.of t.secs = Civil.ofDate (dateOf t) (t.secs % 86400).toNat := Civil.of_eq hnumber
  have hyear : yearAt t = (dateOf t).year := by
    unfold yearAt
    rw [hcivil]
    rfl
  have hlt : (dateOf t).year < 10000 := by
    have := h.2
    omega
  refine ⟨hlt, ?_⟩
  rw [civilStamp_eq, hyear, yearText_of_lt hlt, hcivil]
  rfl

theorem readStamp_civilStamp {t : SystemTime} (h : FourDigits t) : readStamp (civilStamp t) = some t.secs := by
  obtain ⟨hyear, htext⟩ := civilStamp_eq_stampOf h
  have hnumber : ((dateOf t).number : Int) = t.secs / 86400 + epoch := by
    have hnonneg : 0 ≤ t.secs / 86400 + epoch := Civil.number_nonneg h.1
    unfold dateOf
    rw [Date.number_ofNumber]
    omega
  rw [htext, readStamp_stampOf hyear (by omega), hnumber]
  congr 1
  omega

/-- The digits before the dot. -/
theorem length_civilStamp (t : SystemTime) :
    ((civilStamp t).takeWhile (· != '.')).length = ((yearText (yearAt t)).takeWhile (· != '.')).length + 8 := by
  have hyear : ∀ c ∈ yearText (yearAt t), (c != '.') = true := by
    rcases yearText_cases (yearAt t) with ⟨-, -, htext⟩ | ⟨-, -, htext⟩
    · rw [htext]
      exact dot_not_mem_fixed _ _
    · exact htext
  have hself : (yearText (yearAt t)).takeWhile (· != '.') = yearText (yearAt t) := List.takeWhile_eq_self_iff.2 hyear
  rw [hself, civilStamp_eq, List.takeWhile_append_of_pos hyear, List.takeWhile_append_of_pos (dot_not_mem_fixed _ _),
    List.takeWhile_append_of_pos (dot_not_mem_fixed _ _), List.takeWhile_append_of_pos (dot_not_mem_fixed _ _),
    List.takeWhile_append_of_pos (dot_not_mem_fixed _ _), List.takeWhile_cons_of_neg (by decide)]
  simp [length_fixed]

/-- **A stamp is read back if its year has four digits, and not at all if it has not.** -/
theorem readTouch_civilStamp (thisYear : Nat) (t : SystemTime) :
    (FourDigits t → readTouch thisYear (civilStamp t) = some t.secs) ∧
      (¬ FourDigits t → readTouch thisYear (civilStamp t) = none) := by
  have hlength := length_civilStamp t
  rcases yearText_cases (yearAt t) with ⟨h0, h1, htext⟩ | ⟨hnot, hlong, hdot⟩
  · rw [htext, List.takeWhile_eq_self_iff.2 (dot_not_mem_fixed _ _), length_fixed] at hlength
    refine ⟨fun h => ?_, fun h => absurd ⟨h0, h1⟩ h⟩
    unfold readTouch
    rw [hlength]
    exact readStamp_civilStamp h
  · rw [List.takeWhile_eq_self_iff.2 hdot] at hlength
    refine ⟨fun h => absurd h hnot, fun _ => ?_⟩
    unfold readTouch
    split
    · omega
    · omega
    · omega
    · rfl

theorem ordinary_civilStamp (t : SystemTime) : civilStamp t ≠ [] ∧ ∀ c ∈ civilStamp t, Sh.ordinary c = true := by
  have hfixed : ∀ k n, ∀ c ∈ fixed k n, Sh.ordinary c = true := fun k n c hc => ordinary_of_isDigit (mem_fixed c hc)
  have hyear : ∀ c ∈ yearText (yearAt t), Sh.ordinary c = true := by
    unfold yearText
    split
    · exact hfixed _ _
    · intro c hc
      rw [List.mem_cons, List.mem_append] at hc
      rcases hc with rfl | hc | hc
      · split <;> decide
      · rw [List.eq_of_mem_replicate hc]
        decide
      · exact ordinary_of_isDigit (isDigit_of_mem_decimal hc)
  rw [civilStamp_eq]
  refine ⟨by simp, fun c hc => ?_⟩
  simp only [List.mem_append, List.mem_cons] at hc
  rcases hc with hc | hc | hc | hc | hc | rfl | hc
  · exact hyear c hc
  · exact hfixed _ _ c hc
  · exact hfixed _ _ c hc
  · exact hfixed _ _ c hc
  · exact hfixed _ _ c hc
  · decide
  · exact hfixed _ _ c hc

/-! ## `chrono` -/

instance (first last : Int) (t : SystemTime) : Decidable (Known first last t) := inferInstanceAs (Decidable (_ ∧ _))

/-- `chrono`, with the years it knows. -/
def civilLibs : Libs where
  classes := Classes.ascii
  chrono :=
    { lsLibs.chrono with
      formatUtc := fun t fmt =>
        if fmt = "%Y%m%d%H%M.%S".toList ∧ Known (-262143) 262142 t then some (civilStamp t) else none }

theorem civilLibs_formats : civilLibs.chrono.Formats (-262143) 262142 where
  known _ h := if_pos ⟨rfl, h⟩
  unknown _ h := if_neg fun hc => h hc.2

end RemotefsSsh
