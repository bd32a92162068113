import Mathlib.Algebra.Ring.Nat
import RemotefsSsh.Lib.Utf8

/-!
# Blanks, numerals, separators and lines

`trim`, unsigned numerals, `split` on a separator and `lines`, as a standard library offers them on
UTF-8 text. A numeral is ASCII: an optional `+` and at least one digit, with any leading zeros; a
value that does not fit the target width does not parse.
-/

namespace Utf8

/-! ## White space -/

/-- The Unicode property `White_Space`. -/
def isWhite (c : Char) : Bool :=
  (9 ≤ c.toNat && c.toNat ≤ 13) || c.toNat == 0x20 || c.toNat == 0x85 || c.toNat == 0xA0 ||
  c.toNat == 0x1680 || (0x2000 ≤ c.toNat && c.toNat ≤ 0x200A) || c.toNat == 0x2028 ||
  c.toNat == 0x2029 || c.toNat == 0x202F || c.toNat == 0x205F || c.toNat == 0x3000

/-- Nothing but white space. -/
def Blank (s : Str) : Prop := ∀ c ∈ s, isWhite c = true

instance (s : Str) : Decidable (Blank s) := decidable_of_iff (s.all isWhite = true) List.all_eq_true

/-- No white space at either end. -/
def Tight (s : Str) : Prop :=
  (∀ c, s.head? = some c → isWhite c = false) ∧ (∀ c, s.getLast? = some c → isWhite c = false)

def trimStart (s : Str) : Str := s.dropWhile isWhite
def trimEnd (s : Str) : Str := s.rdropWhile isWhite
def trim (s : Str) : Str := trimEnd (trimStart s)

@[simp] theorem blank_nil : Blank [] := by simp [Blank]

@[simp] theorem blank_cons {c : Char} {s : Str} : Blank (c :: s) ↔ isWhite c = true ∧ Blank s := by
  simp [Blank]

@[simp] theorem blank_append {a b : Str} : Blank (a ++ b) ↔ Blank a ∧ Blank b := by
  simp only [Blank, List.mem_append]
  constructor
  · intro h; exact ⟨fun c hc => h c (Or.inl hc), fun c hc => h c (Or.inr hc)⟩
  · rintro ⟨ha, hb⟩ c (hc | hc)
    · exact ha c hc
    · exact hb c hc

theorem blank_reverse {a : Str} : Blank a.reverse ↔ Blank a := by simp [Blank]

theorem isWhite_newline : isWhite '\n' = true := by decide
theorem isWhite_space : isWhite ' ' = true := by decide

/-- Peeling blanks off a text that starts with something else leaves it. -/
theorem trimStart_append {a t : Str} (ha : Blank a) (ht : ∀ c, t.head? = some c → isWhite c = false) :
    trimStart (a ++ t) = t := by
  unfold trimStart
  rw [List.dropWhile_append_of_pos ha]
  cases t with
  | nil => rfl
  | cons c cs => rw [List.dropWhile_cons_of_neg (by simp [ht c rfl])]

theorem trimEnd_eq_reverse (s : Str) : trimEnd s = (trimStart s.reverse).reverse := rfl

theorem trimEnd_append {t b : Str} (hb : Blank b) (ht : ∀ c, t.getLast? = some c → isWhite c = false) :
    trimEnd (t ++ b) = t := by
  rw [trimEnd_eq_reverse, List.reverse_append,
    trimStart_append (blank_reverse.2 hb) (by simpa [List.head?_reverse] using ht), List.reverse_reverse]

/-- The leading blanks of a text, and what follows them. -/
theorem trimStart_split (s : Str) :
    s = s.takeWhile isWhite ++ trimStart s ∧ Blank (s.takeWhile isWhite) ∧
      ∀ c, (trimStart s).head? = some c → isWhite c = false := by
  refine ⟨List.takeWhile_append_dropWhile.symm, fun c hc => List.mem_takeWhile_imp hc, fun c hc => ?_⟩
  have h := List.head?_dropWhile_not isWhite s
  rw [trimStart] at hc
  rw [hc] at h
  simpa using h

theorem trimEnd_split (s : Str) :
    ∃ b, s = trimEnd s ++ b ∧ Blank b ∧ ∀ c, (trimEnd s).getLast? = some c → isWhite c = false := by
  obtain ⟨h1, h2, h3⟩ := trimStart_split s.reverse
  refine ⟨(s.reverse.takeWhile isWhite).reverse, ?_, blank_reverse.2 h2, ?_⟩
  · rw [trimEnd_eq_reverse, ← List.reverse_append, ← h1, List.reverse_reverse]
  · intro c hc
    rw [trimEnd_eq_reverse, List.getLast?_reverse] at hc
    exact h3 c hc

/-- `trim` cuts a text in three: blanks, a tight middle, blanks. -/
theorem trim_split (s : Str) :
    ∃ b, s = s.takeWhile isWhite ++ trim s ++ b ∧ Blank (s.takeWhile isWhite) ∧ Blank b ∧ Tight (trim s) := by
  obtain ⟨h1, h2, h3⟩ := trimStart_split s
  obtain ⟨b, h4, h5, h6⟩ := trimEnd_split (trimStart s)
  refine ⟨b, by rw [List.append_assoc, trim, ← h4, ← h1], h2, h5, ?_, h6⟩
  intro c hc
  refine h3 c ?_
  rw [h4, List.head?_append, ← trim, hc]
  rfl

theorem trim_unique {a t b : Str} (ha : Blank a) (hb : Blank b) (ht : Tight t) : trim (a ++ t ++ b) = t := by
  unfold trim
  cases t with
  | nil =>
    have h : trimStart (a ++ [] ++ b) = [] := by
      have := trimStart_append (t := []) (blank_append.2 ⟨ha, hb⟩) (by simp)
      simpa using this
    rw [h]; rfl
  | cons c cs =>
    have hc := ht.1 c rfl
    rw [List.append_assoc, trimStart_append ha (by simpa using hc), trimEnd_append hb ht.2]

theorem trim_tight {t : Str} (ht : Tight t) : trim t = t := by
  simpa using trim_unique blank_nil blank_nil ht

theorem trim_append_blank {s b : Str} (hb : Blank b) : trim (s ++ b) = trim s := by
  obtain ⟨b', h1, h2, h3, h4⟩ := trim_split s
  have := trim_unique h2 (blank_append.2 ⟨h3, hb⟩) h4
  rw [← this]
  conv => lhs; rw [h1]
  simp only [List.append_assoc]

theorem trim_blank_append {s a : Str} (ha : Blank a) : trim (a ++ s) = trim s := by
  obtain ⟨b', h1, h2, h3, h4⟩ := trim_split s
  have := trim_unique (blank_append.2 ⟨ha, h2⟩) h3 h4
  rw [← this]
  conv => lhs; rw [h1]
  simp only [List.append_assoc]

/-- A text without leading blanks keeps its start. -/
theorem takeWhile_white_eq_nil {s : Str} :
    s.takeWhile isWhite = [] ↔ ∀ c, s.head? = some c → isWhite c = false := by
  cases s with
  | nil => simp
  | cons c cs => by_cases hc : isWhite c = true <;> simp [hc]

theorem trimStart_eq_nil {a : Str} (ha : Blank a) : trimStart a = [] := by
  have h := trimStart_append (t := []) ha (by simp)
  rwa [List.append_nil] at h

/-- The ends are trimmed in either order. -/
theorem trim_eq (s : Str) : trim s = trimStart (trimEnd s) := by
  obtain ⟨b, hsplit, ha, hb, ht⟩ := trim_split s
  generalize List.takeWhile isWhite s = a at hsplit ha
  generalize trim s = t at hsplit ht
  subst hsplit
  rcases eq_or_ne t [] with rfl | hne
  · have hblank : Blank (a ++ [] ++ b) := blank_append.2 ⟨by simpa using ha, hb⟩
    have hend := trimEnd_append (t := []) hblank (by simp)
    rw [List.nil_append] at hend
    rw [hend]
    rfl
  · have hend : trimEnd (a ++ t ++ b) = a ++ t := trimEnd_append hb fun c hc => ht.2 c (by
      rwa [List.getLast?_append_of_ne_nil _ hne] at hc)
    rw [hend, trimStart_append ha ht.1]

theorem trimStart_tight {a t : Str} (ha : Blank a) (ht : ∀ c, t.head? = some c → isWhite c = false) :
    (a ++ t).takeWhile isWhite = a ∧ trimStart (a ++ t) = t := by
  have htrim := trimStart_append ha ht
  refine ⟨?_, htrim⟩
  have h := (trimStart_split (a ++ t)).1
  rw [htrim] at h
  exact (List.append_cancel_right h).symm

/-! ## The last line -/

/-- What stands behind the last newline. -/
def lastLine (s : Str) : Str := s.rtakeWhile (· ≠ '\n')

theorem lastLine_append {a w : Str} (hw : '\n' ∉ w) : lastLine (a ++ w) = lastLine a ++ w := by
  induction w using List.reverseRecOn with
  | nil => simp
  | append_singleton w c ih =>
    rw [List.mem_append, List.mem_singleton, not_or] at hw
    have hc : c ≠ '\n' := Ne.symm hw.2
    have hstep : lastLine (a ++ w ++ [c]) = lastLine (a ++ w) ++ [c] :=
      List.rtakeWhile_concat_pos _ _ _ (by simpa using hc)
    rw [← List.append_assoc, hstep, ih hw.1, List.append_assoc]

theorem lastLine_append_cons {u w : Str} (hw : '\n' ∉ w) : lastLine (u ++ '\n' :: w) = w := by
  have h := lastLine_append (a := u ++ ['\n']) hw
  have hnil : lastLine (u ++ ['\n']) = [] := List.rtakeWhile_concat_neg _ _ _ (by simp)
  rwa [List.append_assoc, List.singleton_append, hnil, List.nil_append] at h

theorem blank_lastLine {a : Str} (ha : Blank a) : Blank (lastLine a) :=
  fun c hc => ha c ((List.rtakeWhile_suffix _ a).subset hc)

/-- The last newline cuts in one way. -/
theorem last_cut_unique {u w u' w' : Str} (h : u ++ '\n' :: w = u' ++ '\n' :: w') (hw : '\n' ∉ w) (hw' : '\n' ∉ w') :
    u = u' ∧ w = w' := by
  have hline : w = w' := by rw [← lastLine_append_cons (u := u) hw, h, lastLine_append_cons hw']
  subst hline
  exact ⟨List.append_cancel_right h, rfl⟩

/-! ## Unsigned numerals -/

/-- The decimal numeral of `n` (`Display`). -/
def decimal (n : Nat) : Str := Nat.toDigits 10 n

/-- The octal numeral of `n` (`{:o}`). -/
def octal (n : Nat) : Str := Nat.toDigits 8 n

def parseDigits (s : Str) : Option Nat :=
  if s ≠ [] ∧ s.all Char.isDigit = true then some (Nat.ofDigitChars 10 s 0) else none

/-- The value of an unsigned numeral, before the range check. -/
def parseUnsigned : Str → Option Nat
  | '+' :: ds => parseDigits ds
  | s => parseDigits s

/-- `s.parse::<u32>().ok()` -/
def parseU32 (s : Str) : Option UInt32 :=
  (parseUnsigned s).bind fun v => if h : v < UInt32.size then some (UInt32.ofNatLT v h) else none

/-- `s.parse::<u64>().ok()` -/
def parseU64 (s : Str) : Option UInt64 :=
  (parseUnsigned s).bind fun v => if h : v < UInt64.size then some (UInt64.ofNatLT v h) else none

theorem decimal_ne_nil (n : Nat) : decimal n ≠ [] := Nat.toDigits_ne_nil

theorem isDigit_of_mem_decimal {n : Nat} {c : Char} (h : c ∈ decimal n) : c.isDigit = true :=
  Nat.isDigit_of_mem_toDigits (by decide) (by decide) h

/-- Only the numeral of 0 starts with a zero. -/
theorem eq_zero_of_head_decimal {n : Nat} (h : (decimal n).head? = some '0') : n = 0 := by
  induction n using Nat.strongRecOn with
  | ind n ih =>
    rw [decimal, Nat.toDigits_eq_if (by decide)] at h
    have hsmall : ∀ m < 10, [Nat.digitChar m].head? = some '0' → m = 0 := by decide
    split at h <;> rename_i hn
    · exact hsmall n hn h
    · rw [List.head?_append_of_ne_nil _ Nat.toDigits_ne_nil] at h
      have := ih (n / 10) (by omega) h
      omega

theorem isWhite_of_isDigit {c : Char} (h : c.isDigit = true) : isWhite c = false := by
  have h1 : 48 ≤ c.toNat ∧ c.toNat ≤ 57 := Char.isDigit_iff_toNat.1 h
  simp only [isWhite, Bool.or_eq_false_iff, Bool.and_eq_false_iff, decide_eq_false_iff_not, beq_eq_false_iff_ne]
  omega

theorem toNat_of_isAlphanum {c : Char} (h : c.isAlphanum = true) :
    48 ≤ c.toNat ∧ c.toNat ≤ 57 ∨ 65 ≤ c.toNat ∧ c.toNat ≤ 90 ∨ 97 ≤ c.toNat ∧ c.toNat ≤ 122 := by
  delta Char.isAlphanum Char.isAlpha Char.isUpper Char.isLower Char.isDigit at h
  simp only [Bool.or_eq_true, Bool.and_eq_true, decide_eq_true_eq, ge_iff_le, UInt32.le_iff_toNat_le] at h
  have hn : c.val.toNat = c.toNat := rfl
  simp only [hn] at h
  simp at h
  omega

theorem isWhite_of_isAlphanum {c : Char} (h : c.isAlphanum = true) : isWhite c = false := by
  have := toNat_of_isAlphanum h
  simp only [isWhite, Bool.or_eq_false_iff, Bool.and_eq_false_iff, decide_eq_false_iff_not, beq_eq_false_iff_ne]
  omega

theorem tight_of_digits {s : Str} (h : ∀ c ∈ s, c.isDigit = true) : Tight s :=
  ⟨fun c hc => isWhite_of_isDigit (h c (List.mem_of_mem_head? hc)),
   fun c hc => isWhite_of_isDigit (h c (List.mem_of_getLast? hc))⟩

theorem decimal_tight (n : Nat) : Tight (decimal n) :=
  tight_of_digits fun _ hc => isDigit_of_mem_decimal hc

theorem newline_not_mem_decimal (n : Nat) : '\n' ∉ decimal n := fun h => by
  simpa using isDigit_of_mem_decimal h

theorem parseDigits_eq_some {s : Str} {v : Nat} :
    parseDigits s = some v ↔ s ≠ [] ∧ (∀ c ∈ s, c.isDigit = true) ∧ Nat.ofDigitChars 10 s 0 = v := by
  unfold parseDigits
  simp only [List.all_eq_true, Option.ite_none_right_eq_some, Option.some.injEq]
  tauto

theorem parseDigits_decimal (n : Nat) : parseDigits (decimal n) = some n :=
  parseDigits_eq_some.2 ⟨decimal_ne_nil n, fun _ => isDigit_of_mem_decimal, Nat.ofDigitChars_ten_toDigits⟩

theorem parseUnsigned_of_digit {s : Str} (h : ∀ c, s.head? = some c → c.isDigit = true) :
    parseUnsigned s = parseDigits s := by
  unfold parseUnsigned
  split
  · exact absurd (h '+' rfl) (by decide)
  · rfl

theorem parseUnsigned_decimal (n : Nat) : parseUnsigned (decimal n) = some n := by
  rw [parseUnsigned_of_digit fun c hc => isDigit_of_mem_decimal (List.mem_of_mem_head? hc),
    parseDigits_decimal]

/-- A numeral has no white space in it. -/
theorem not_white_of_parseUnsigned {s : Str} {v : Nat} (h : parseUnsigned s = some v) :
    ∀ c ∈ s, isWhite c = false := by
  unfold parseUnsigned at h
  split at h
  · intro c hc
    rcases List.mem_cons.1 hc with rfl | hc
    · decide
    · exact isWhite_of_isDigit ((parseDigits_eq_some.1 h).2.1 c hc)
  · exact fun c hc => isWhite_of_isDigit ((parseDigits_eq_some.1 h).2.1 c hc)

theorem parseUnsigned_ne_nil {s : Str} {v : Nat} (h : parseUnsigned s = some v) : s ≠ [] := by
  rintro rfl
  simp [parseUnsigned, parseDigits] at h

theorem parseU32_eq_some {s : Str} {v : UInt32} : parseU32 s = some v ↔ parseUnsigned s = some v.toNat := by
  unfold parseU32
  rw [Option.bind_eq_some_iff]
  constructor
  · rintro ⟨n, hn, hv⟩
    split at hv
    · rename_i hlt
      cases hv
      rw [UInt32.toNat_ofNatLT]; exact hn
    · cases hv
  · intro h
    refine ⟨v.toNat, h, ?_⟩
    rw [dif_pos v.toNat_lt, UInt32.ofNatLT_toNat]

theorem parseU32_decimal (n : UInt32) : parseU32 (decimal n.toNat) = some n :=
  parseU32_eq_some.2 (parseUnsigned_decimal _)

theorem parseU64_eq_some {s : Str} {v : UInt64} : parseU64 s = some v ↔ parseUnsigned s = some v.toNat := by
  unfold parseU64
  rw [Option.bind_eq_some_iff]
  constructor
  · rintro ⟨n, hn, hv⟩
    split at hv
    · rename_i hlt
      cases hv
      rw [UInt64.toNat_ofNatLT]; exact hn
    · cases hv
  · intro h
    refine ⟨v.toNat, h, ?_⟩
    rw [dif_pos v.toNat_lt, UInt64.ofNatLT_toNat]

theorem parseU64_decimal (n : UInt64) : parseU64 (decimal n.toNat) = some n :=
  parseU64_eq_some.2 (parseUnsigned_decimal _)

theorem parseDigits_append {t ds : Str} (ht : t ≠ []) (hds : ds ≠ []) {m : Nat} :
    parseDigits (t ++ ds) = some m ↔ ∃ k j, parseDigits t = some k ∧ parseDigits ds = some j ∧
      m = k * 10 ^ ds.length + j := by
  simp only [parseDigits_eq_some]
  have hval : Nat.ofDigitChars 10 (t ++ ds) 0 = Nat.ofDigitChars 10 t 0 * 10 ^ ds.length +
    Nat.ofDigitChars 10 ds 0 := by
    rw [Nat.ofDigitChars_append, Nat.ofDigitChars_eq_ofDigitChars_zero, Nat.mul_comm]
  constructor
  · rintro ⟨-, hall, rfl⟩
    exact ⟨_, _, ⟨ht, fun c hc => hall c (List.mem_append_left _ hc), rfl⟩,
      ⟨hds, fun c hc => hall c (List.mem_append_right _ hc), rfl⟩, hval⟩
  · rintro ⟨k, j, ⟨-, htd, rfl⟩, ⟨-, hdd, rfl⟩, rfl⟩
    refine ⟨List.append_ne_nil_of_left_ne_nil ht _, fun c hc => ?_, hval⟩
    rcases List.mem_append.1 hc with hc | hc
    · exact htd c hc
    · exact hdd c hc

/-- A numeral behind other text. -/
theorem parseUnsigned_append_decimal {t : Str} (ht : t ≠ []) {n m : Nat} :
    parseUnsigned (t ++ decimal n) = some m ↔
      (t = ['+'] ∧ m = n) ∨ ∃ k, parseUnsigned t = some k ∧ m = k * 10 ^ (decimal n).length + n := by
  have hdigits : ∀ {t : Str}, t ≠ [] → (parseDigits (t ++ decimal n) = some m ↔
      ∃ k, parseDigits t = some k ∧ m = k * 10 ^ (decimal n).length + n) := by
    intro t ht
    rw [parseDigits_append ht (decimal_ne_nil n)]
    simp only [parseDigits_decimal, Option.some.injEq]
    grind
  cases t with
  | nil => exact absurd rfl ht
  | cons c ds =>
    by_cases hc : c = '+'
    · subst hc
      cases ds with
      | nil =>
        have hplus : parseUnsigned ['+'] = none := rfl
        show parseDigits (decimal n) = some m ↔ _
        rw [parseDigits_decimal, hplus]
        simp [eq_comm]
      | cons d ds =>
        show parseDigits (d :: ds ++ decimal n) = some m ↔ _
        rw [hdigits (List.cons_ne_nil d ds)]
        simp [parseUnsigned]
    · have hsign : ∀ s : Str, parseUnsigned (c :: s) = parseDigits (c :: s) := fun s => by simp [parseUnsigned, hc]
      rw [List.cons_append, hsign, hsign, ← List.cons_append, hdigits (List.cons_ne_nil c ds)]
      simp [hc]


/-! ## Separators -/

/-- What precedes and what follows the first occurrence of `sep`. -/
def splitFirst (sep : Str) : Str → Option (Str × Str)
  | [] => if sep = [] then some ([], []) else none
  | c :: cs =>
    if sep <+: c :: cs then some ([], (c :: cs).drop sep.length)
    else (splitFirst sep cs).map fun p => (c :: p.1, p.2)

/-- `s.split(sep)`, with as many steps as the text is long. -/
def splitAux (sep : Str) : Nat → Str → List Str
  | 0, s => [s]
  | n + 1, s =>
    match splitFirst sep s with
    | none => [s]
    | some (a, b) => a :: splitAux sep n b

/-- `s.split(sep)` for a non-empty `sep`: the pieces between its occurrences, left to right. -/
def split (sep s : Str) : List Str := splitAux sep s.length s

theorem dropWhile_of_head {p : Char → Bool} {s : Str} (h : ∀ x, s.head? = some x → p x = false) :
    s.dropWhile p = s := by
  cases s with
  | nil => rfl
  | cons x s => exact List.dropWhile_cons_of_neg (by simp [h x rfl])

/-- The words between white space. -/
def tokens (s : Str) : List Str := (s.splitOnP isWhite).filter (· ≠ [])

theorem tokens_append_cons (a b : Str) {w : Char} (hw : isWhite w = true) :
    tokens (a ++ w :: b) = tokens a ++ tokens b := by
  simp [tokens, List.splitOnP_append_cons a b hw]

theorem tokens_append_blank {w : Str} (hne : w ≠ []) (hw : Blank w) (a b : Str) :
    tokens (a ++ (w ++ b)) = tokens a ++ tokens b := by
  induction w generalizing a with
  | nil => exact absurd rfl hne
  | cons c w ih =>
    rw [blank_cons] at hw
    rw [List.cons_append, tokens_append_cons a _ hw.1]
    cases w with
    | nil => rfl
    | cons d w => exact congrArg (tokens a ++ ·) (ih (List.cons_ne_nil d w) hw.2 [])

theorem tokens_word {t : Str} (hne : t ≠ []) (ht : ∀ c ∈ t, isWhite c = false) : tokens t = [t] := by
  simp [tokens, List.splitOnP_eq_singleton ht, hne]

theorem mem_of_mem_tokens {s t : Str} (h : t ∈ tokens s) {c : Char} (hc : c ∈ t) : c ∈ s := by
  have key : ∀ {s t : Str}, t ∈ s.splitOnP isWhite → c ∈ t → c ∈ s := by
    intro s
    induction s with
    | nil => intro t ht hc; simp at ht; subst ht; exact hc
    | cons d s ih =>
      intro t ht hc
      rw [List.splitOnP_cons_eq_if_modifyHead] at ht
      split at ht
      · rcases List.mem_cons.1 ht with rfl | ht
        · simp at hc
        · exact List.mem_cons_of_mem d (ih ht hc)
      · cases hs : s.splitOnP isWhite with
        | nil => exact absurd hs (List.splitOnP_ne_nil _ s)
        | cons u us =>
          rw [hs] at ht
          simp only [List.modifyHead_cons, List.mem_cons] at ht
          rcases ht with rfl | ht
          · rcases List.mem_cons.1 hc with rfl | hc
            · exact List.mem_cons_self
            · exact List.mem_cons_of_mem d (ih (t := u) (by rw [hs]; exact List.mem_cons_self) hc)
          · exact List.mem_cons_of_mem d (ih (by rw [hs]; exact List.mem_cons_of_mem u ht) hc)
  exact key (List.mem_filter.1 h).1 hc

theorem tokens_ne_nil {s : Str} {c : Char} (hc : s.head? = some c) (hw : isWhite c = false) : tokens s ≠ [] := by
  obtain ⟨s, rfl⟩ : ∃ t, s = c :: t := by
    cases s with
    | nil => cases hc
    | cons d t => cases hc; exact ⟨t, rfl⟩
  unfold tokens
  rw [List.splitOnP_cons_eq_if_modifyHead, if_neg (by simp [hw])]
  cases hs : s.splitOnP isWhite with
  | nil => exact absurd hs (List.splitOnP_ne_nil _ s)
  | cons u us => simp

theorem blank_replicate (n : Nat) : Blank (List.replicate n ' ') := fun _ hc => by
  rw [List.eq_of_mem_replicate hc, isWhite_space]

theorem tokens_blank_append {w : Str} (hw : Blank w) (s : Str) : tokens (w ++ s) = tokens s := by
  by_cases hne : w = []
  · rw [hne, List.nil_append]
  · exact tokens_append_blank hne hw [] s

/-- What is not white space stands in a word. -/
theorem exists_token_of_mem {s : Str} {c : Char} (hc : c ∈ s) (hw : isWhite c = false) : ∃ t ∈ tokens s, c ∈ t := by
  induction s with
  | nil => cases hc
  | cons d s ih =>
    by_cases hd : isWhite d = true
    · rcases List.mem_cons.1 hc with rfl | hc
      · rw [hw] at hd
        cases hd
      · rw [show tokens (d :: s) = tokens s from tokens_append_cons [] s hd]
        exact ih hc
    · unfold tokens at ih ⊢
      rw [List.splitOnP_cons_eq_if_modifyHead, if_neg hd]
      cases hs : s.splitOnP isWhite with
      | nil => exact absurd hs (List.splitOnP_ne_nil _ s)
      | cons u us =>
        rw [hs] at ih
        simp only [List.modifyHead_cons, List.mem_filter, List.mem_cons, decide_eq_true_eq] at ih ⊢
        rcases List.mem_cons.1 hc with rfl | hc
        · exact ⟨c :: u, ⟨Or.inl rfl, List.cons_ne_nil _ _⟩, List.mem_cons_self⟩
        · obtain ⟨t, ⟨rfl | ht, hne⟩, hct⟩ := ih hc
          · exact ⟨d :: t, ⟨Or.inl rfl, List.cons_ne_nil _ _⟩, List.mem_cons_of_mem d hct⟩
          · exact ⟨t, ⟨Or.inr ht, hne⟩, hct⟩

/-- `s.lines()`: ends of line are `\n` and `\r\n`; nothing follows the last one. -/
def lines : Str → List Str
  | [] => []
  | '\n' :: cs => [] :: lines cs
  | '\r' :: '\n' :: cs => [] :: lines cs
  | c :: cs =>
    match lines cs with
    | [] => [[c]]
    | l :: ls => (c :: l) :: ls

theorem splitFirst_eq_some {sep s a b : Str} (h : splitFirst sep s = some (a, b)) : s = a ++ (sep ++ b) := by
  induction s generalizing a b with
  | nil =>
    simp only [splitFirst] at h
    split at h
    · rename_i hs; cases h; simp [hs]
    · cases h
  | cons c cs ih =>
    simp only [splitFirst] at h
    split at h
    · rename_i hpre
      cases h
      obtain ⟨t, ht⟩ := hpre
      simp [← ht]
    · obtain ⟨⟨a', b'⟩, hcs, he⟩ := Option.map_eq_some_iff.1 h
      cases he
      simp [ih hcs]

theorem splitFirst_nil {sep : Str} (hsep : sep ≠ []) : splitFirst sep [] = none := by simp [splitFirst, hsep]

theorem splitFirst_eq_none {sep : Str} (hsep : sep ≠ []) {s : Str} : splitFirst sep s = none ↔ ¬ sep <:+: s := by
  induction s with
  | nil => simp [splitFirst, hsep]
  | cons c cs ih =>
    rw [splitFirst, List.infix_cons_iff, not_or, ← ih]
    by_cases hpre : sep <+: c :: cs
    · rw [if_pos hpre]
      simp [hpre]
    · rw [if_neg hpre]
      simp [hpre]

/-- A separator is found where it stands, if no other one begins before it. -/
theorem splitFirst_append_iff {sep : Str} (hsep : sep ≠ []) (a b : Str) :
    splitFirst sep (a ++ (sep ++ b)) = some (a, b) ↔ ¬ sep <:+: a ++ sep.dropLast := by
  have hlen := List.length_pos_iff.2 hsep
  induction a with
  | nil =>
    obtain ⟨c, cs, rfl⟩ := List.exists_cons_of_ne_nil hsep
    refine iff_of_true ?_ fun h => ?_
    · have hdrop : (c :: (cs ++ b)).drop (c :: cs).length = b := List.drop_left' rfl
      rw [List.nil_append, List.cons_append, splitFirst, if_pos ⟨b, rfl⟩, hdrop]
    · have := h.length_le
      rw [List.nil_append, List.length_dropLast] at this
      omega
  | cons c a ih =>
    have hsame : c :: (a ++ sep.dropLast) <+: c :: (a ++ (sep ++ b)) := by
      refine (List.prefix_cons_inj c).2 ((List.prefix_append_right_inj a).2 ?_)
      exact (List.dropLast_prefix sep).trans (List.prefix_append sep b)
    have hfits : sep.length ≤ (c :: (a ++ sep.dropLast)).length := by
      rw [List.length_cons, List.length_append, List.length_dropLast]
      omega
    rw [List.cons_append, List.cons_append, splitFirst, List.infix_cons_iff, not_or]
    by_cases hpre : sep <+: c :: (a ++ (sep ++ b))
    · rw [if_pos hpre]
      have := List.prefix_of_prefix_length_le hpre hsame hfits
      simp [this]
    · rw [if_neg hpre]
      have hno : ¬ sep <+: c :: (a ++ sep.dropLast) := fun h => hpre (h.trans hsame)
      refine Iff.trans ?_ (ih.trans ⟨fun h => ⟨hno, h⟩, And.right⟩)
      simp

theorem splitAux_stable {sep : Str} (hsep : sep ≠ []) {n m : Nat} {s : Str} (hn : s.length ≤ n)
    (hm : s.length ≤ m) : splitAux sep n s = splitAux sep m s := by
  induction n generalizing m s with
  | zero =>
    obtain rfl := List.length_eq_zero_iff.1 (Nat.le_zero.1 hn)
    cases m with
    | zero => rfl
    | succ m => simp [splitAux, splitFirst_nil hsep]
  | succ n ih =>
    cases m with
    | zero =>
      obtain rfl := List.length_eq_zero_iff.1 (Nat.le_zero.1 hm)
      simp [splitAux, splitFirst_nil hsep]
    | succ m =>
      simp only [splitAux]
      cases hs : splitFirst sep s with
      | none => rfl
      | some p =>
        obtain ⟨a, b⟩ := p
        have h := congrArg List.length (splitFirst_eq_some hs)
        have hpos := List.length_pos_iff.2 hsep
        simp only [List.length_append] at h
        simp only [ih (m := m) (s := b) (by omega) (by omega)]

/-- `split` cuts at the first occurrence and goes on behind it. -/
theorem split_eq {sep : Str} (hsep : sep ≠ []) (s : Str) :
    split sep s = match splitFirst sep s with
      | none => [s]
      | some (a, b) => a :: split sep b := by
  have h : split sep s = splitAux sep (s.length + 1) s := splitAux_stable hsep (le_refl _) (Nat.le_succ _)
  rw [h]
  simp only [splitAux]
  split
  · rfl
  · rename_i a b hs
    have h := congrArg List.length (splitFirst_eq_some hs)
    simp only [List.length_append] at h
    rw [split, splitAux_stable hsep (by omega) (le_refl b.length)]

/-- A line without the carriage return in front of its `\n`. -/
def stripCr (l : Str) : Str := if l.getLast? = some '\r' then l.dropLast else l

theorem lines_cons (c : Char) (cs : Str) (hn : c ≠ '\n') (hr : c = '\r' → cs.head? ≠ some '\n') :
    lines (c :: cs) = match lines cs with | [] => [[c]] | l :: ls => (c :: l) :: ls := by
  rw [lines.eq_def]
  split
  · simp_all
  · simp_all
  · rename_i h; simp at h; simp_all
  · rename_i h; cases h; rfl

theorem lines_append (l rest : Str) (h : '\n' ∉ l) :
    lines (l ++ '\n' :: rest) = stripCr l :: lines rest := by
  induction l with
  | nil => simp [lines, stripCr]
  | cons c cs ih =>
    simp only [List.mem_cons, not_or] at h
    by_cases hr : c = '\r' ∧ cs = []
    · obtain ⟨rfl, rfl⟩ := hr
      simp [lines, stripCr]
    · rw [List.cons_append, lines_cons c _ (Ne.symm h.1), ih h.2]
      · cases cs with
        | nil => simp at hr; simp [stripCr, hr]
        | cons d ds => simp only [stripCr, List.getLast?_cons_cons]; split <;> simp
      · -- a carriage return that is not the last character is part of the line
        rintro rfl
        cases cs with
        | nil => simp at hr
        | cons d ds => simp at h ⊢; exact Ne.symm h.1

theorem stripCr_mem {l : Str} {c : Char} (h : c ∈ stripCr l) : c ∈ l := by
  unfold stripCr at h
  split at h
  · exact List.dropLast_subset l h
  · exact h

end Utf8
