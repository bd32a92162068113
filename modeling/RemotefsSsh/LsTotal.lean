import RemotefsSsh.LsMatch

/-!
# Reading any line (ssh/scp.rs:61-185, utils/parser.rs:14-38)

`parse_ls_output` answers every line with a `File` or an error (`parseLsOutput_cases`). The three sums of permission
bits stay below 8, and the modification time is that of the date in the line, or the epoch for a date before it: a
negative timestamp wraps to a duration that no time can hold (`parseLsOutput_total`).
-/

namespace RemotefsSsh

open Utf8 UnixPath Backtrack Effect

/-! ## Permission sums -/

/-- The sum that `pex` counts, as a number that cannot overflow. -/
def pexSum (s : Str) : Nat := s.zipIdx.foldl (fun count ci =>
    if ci.1 = '-' then count else count + (pexWeight ci.2).toNat) 0

/-- What the letters from the `i`th on can add. -/
def pexLeft : Nat → Nat
  | 0 => 7
  | 1 => 3
  | 2 => 1
  | _ => 0

theorem pexWeight_left (i : Nat) : (pexWeight i).toNat + pexLeft (i + 1) = pexLeft i := by
  match i with
  | 0 => rfl
  | 1 => rfl
  | 2 => rfl
  | _ + 3 => rfl

theorem pexFold_le (s : Str) (i n : Nat) :
    (s.zipIdx i).foldl (fun count ci => if ci.1 = '-' then count else count + (pexWeight ci.2).toNat)
      n ≤ n + pexLeft i := by
  induction s generalizing i n with
  | nil => exact Nat.le_add_right n _
  | cons c s ih =>
    rw [List.zipIdx_cons, List.foldl_cons]
    have hw := pexWeight_left i
    by_cases hc : c = '-'
    · have := ih (i + 1) n
      rw [if_pos hc]
      omega
    · have := ih (i + 1) (n + (pexWeight i).toNat)
      rw [if_neg hc]
      dsimp only
      omega

theorem pexSum_le (s : Str) : pexSum s ≤ 7 := by
  have h := pexFold_le s 0 0
  exact Nat.le_trans h (by decide)

theorem pexFold_toNat (s : Str) (i : Nat) (n : UInt8) (h : n.toNat + pexLeft i < 256) :
    ((s.zipIdx i).foldl (fun count ci => if ci.1 = '-' then count else count + pexWeight ci.2) n).toNat =
      (s.zipIdx i).foldl (fun count ci => if ci.1 = '-' then count else count + (pexWeight ci.2).toNat) n.toNat := by
  induction s generalizing i n with
  | nil => rfl
  | cons c s ih =>
    rw [List.zipIdx_cons, List.foldl_cons, List.foldl_cons]
    have hw := pexWeight_left i
    by_cases hc : c = '-'
    · rw [if_pos hc, if_pos hc]
      exact ih (i + 1) n (by omega)
    · have hadd : (n + pexWeight i).toNat = n.toNat + (pexWeight i).toNat := by
        rw [UInt8.toNat_add, Nat.mod_eq_of_lt (by omega)]
      rw [if_neg hc, if_neg hc]
      dsimp only
      rw [ih (i + 1) _ (by omega), hadd]

/-- The sum is never cut to a byte. -/
theorem pex_toNat (s : Str) : (pex s).toNat = pexSum s := pexFold_toNat s 0 0 (by decide)

/-! ## Dates -/

/-- A timestamp of `chrono` is a signed number of 64 bits. -/
structure Chrono.I64 (C : Chrono) : Prop where
  naiveDate : ∀ s fmt t, C.naiveDate s fmt = some t → -9223372036854775808 ≤ t ∧ t < 9223372036854775808
  naiveDateTime : ∀ s fmt t, C.naiveDateTime s fmt = some t → -9223372036854775808 ≤ t ∧ t < 9223372036854775808

/-- The timestamp of the date that a text is read as: with a year in it, or in the current year. -/
def lsDate (C : Chrono) (thisYear : Int) (tm fmtYear fmtHours : Str) : Option Int :=
  match C.naiveDate tm fmtYear with
  | some date => some date
  | none => C.naiveDateTime (tm ++ ' ' :: decimalInt thisYear) (fmtHours ++ " %Y".toList)

/-- The time that a timestamp becomes. -/
def timeOfStamp (t : Int) : SystemTime := (SystemTime.UNIX_EPOCH.checkedAddSecs (UInt64.ofInt t)).getD .UNIX_EPOCH

theorem parseLstime_eq (C : Chrono) (thisYear : Int) (tm fmtYear fmtHours : Str) :
    parseLstime C thisYear tm fmtYear fmtHours = (lsDate C thisYear tm fmtYear fmtHours).map timeOfStamp := rfl

/-- A timestamp before the epoch becomes the epoch, any other one the time it stands for. -/
theorem timeOfStamp_secs {t : Int} (ht : -9223372036854775808 ≤ t ∧ t < 9223372036854775808) :
    (timeOfStamp t).secs = t.toNat ∧ (timeOfStamp t).nanos = 0 := by
  have hcast : ((UInt64.ofInt t).toNat : Int) = t % 18446744073709551616 := by
    rw [UInt64.ofInt, UInt64.toNat_ofNat']
    omega
  unfold timeOfStamp SystemTime.checkedAddSecs
  by_cases hneg : t < 0
  · have hbig : ¬ SystemTime.UNIX_EPOCH.secs + (UInt64.ofInt t).toNat < 9223372036854775808 := by
      rw [hcast]
      show ¬ (0 : Int) + _ < _
      omega
    rw [dif_neg hbig]
    refine ⟨?_, rfl⟩
    show (0 : Int) = t.toNat
    omega
  · have hsmall : SystemTime.UNIX_EPOCH.secs + (UInt64.ofInt t).toNat < 9223372036854775808 := by
      rw [hcast]
      show (0 : Int) + _ < _
      omega
    rw [dif_pos hsmall]
    refine ⟨?_, rfl⟩
    show (0 : Int) + (UInt64.ofInt t).toNat = t.toNat
    rw [hcast]
    omega

theorem Chrono.I64.lsDate {C : Chrono} (hC : C.I64) {thisYear : Int} {tm fmtYear fmtHours : Str} {t : Int}
    (h : lsDate C thisYear tm fmtYear fmtHours = some t) : -9223372036854775808 ≤ t ∧ t < 9223372036854775808 := by
  unfold RemotefsSsh.lsDate at h
  split at h
  · rename_i date hdate
    cases h
    exact hC.naiveDate _ _ _ hdate
  · exact hC.naiveDateTime _ _ _ h

/-! ## Lines -/

/-- The date in a line, as a timestamp. -/
def lineDate (L : Libs) (thisYear : Int) (line : Str) : Option Int :=
  (((lsRe L.classes).captures line).bind (·.group 7)).bind fun tm =>
    lsDate L.chrono thisYear tm "%b %d %Y".toList "%b %d %H:%M".toList

section
variable {L : Libs} {thisYear : Int} {dir : PathBuf} {line : Str}

theorem modified_of_parse (hC : L.chrono.I64) {f : File} (h : parseLsOutput L thisYear dir line = .ok f) :
    ∃ t, f.metadata.modified = some t ∧ t.secs = ((lineDate L thisYear line).getD 0).toNat := by
  obtain ⟨c, hc, rfl, -, -⟩ := reads_of_parse h
  have hdate : lineDate L thisYear line = lsDate L.chrono thisYear c.date "%b %d %Y".toList "%b %d %H:%M".toList := by
    unfold lineDate
    rw [hc.group 7]
    rfl
  refine ⟨_, rfl, ?_⟩
  rw [parseLstime_eq, hdate]
  cases hstamp : lsDate L.chrono thisYear c.date "%b %d %Y".toList "%b %d %H:%M".toList with
  | none => rfl
  | some t =>
    have hsecs := (timeOfStamp_secs (hC.lsDate hstamp)).1
    rwa [Option.map_some, Option.getD_some, Option.getD_some]

/-- **Every line gives a `File` or an error; no sum of permission bits overflows; and the modification time is that of
the date in the line, but never before the epoch.** -/
theorem parseLsOutput_total (hC : L.chrono.I64) (thisYear : Int) (dir : PathBuf) (line : Str) :
    ((∃ f, parseLsOutput L thisYear dir line = .ok f) ∨ parseLsOutput L thisYear dir line = .err ()) ∧
      (∀ s : Str, pexSum s < 256 ∧ (pex s).toNat = pexSum s) ∧
      ∀ f, parseLsOutput L thisYear dir line = .ok f →
        ∃ t, f.metadata.modified = some t ∧ 0 ≤ t.secs ∧ t.secs = ((lineDate L thisYear line).getD 0).toNat := by
  refine ⟨parseLsOutput_cases L thisYear dir line, fun s => ⟨?_, pex_toNat s⟩, fun f hf => ?_⟩
  · exact Nat.lt_of_le_of_lt (pexSum_le s) (by decide)
  · obtain ⟨t, ht, hsecs⟩ := modified_of_parse hC hf
    exact ⟨t, ht, by omega, hsecs⟩

end

/-! ## A date before the epoch -/

/-- Libraries that know one date, the first day of 1969. -/
def oldLibs : Libs where
  classes := Classes.ascii
  chrono :=
    { naiveDate := fun s _ => if s = "Jan 01 1969".toList then some (-31536000) else none
      naiveDateTime := fun _ _ => none
      formatUtc := fun _ _ => none }

theorem oldLibs_i64 : oldLibs.chrono.I64 where
  naiveDate s fmt t h := by
    have h : (if s = "Jan 01 1969".toList then some (-31536000) else none) = some t := h
    split at h
    · cases h
      omega
    · cases h
  naiveDateTime _ _ _ h := by cases h

def oldLine : Str := "-rw-r--r-- 1 r r 1 Jan 01 1969 a".toList

set_option maxRecDepth 20000 in
theorem parseLsOutput_total_old :
    ∃ f t, parseLsOutput oldLibs 2024 "/srv".toList oldLine = .ok f ∧ f.metadata.modified = some t ∧ t.secs = 0 := by
  have hdate : lineDate oldLibs 2024 oldLine = some (-31536000) := by decide +kernel
  obtain ⟨hcases, -, hmodified⟩ := parseLsOutput_total oldLibs_i64 2024 "/srv".toList oldLine
  rcases hcases with ⟨f, hf⟩ | herr
  · obtain ⟨t, ht, -, hsecs⟩ := hmodified f hf
    rw [hdate] at hsecs
    exact ⟨f, t, hf, ht, hsecs⟩
  · exact absurd herr (by decide +kernel)

end RemotefsSsh
