import RemotefsSsh.ListDir
import RemotefsSsh.LsPadding

/-!
# Lines with one place for the size and the date (ssh/scp.rs:22-25, :61-195)

The expression finds the size and the date at the last place of a line where white space, digits, white space, a date
and white space stand, whatever way it splits the padding before them (`Laid.readAs`). The result for files and
directories is exact when these are the line's own columns and only then (`parseLsOutput_exact_iff`); a date is three
word characters, a day and a time or year, so a name without any date can bring a later place
(`parseLsOutput_misreads_report`). On lines with one such place (`Unambiguous`) owner and group survive only without
padding around them, and the execute bits only without a capital `S` or `T` (`parseLsOutput_owner_mode_iff`); a link
survives unless an arrow in its text is taken for the one that `ls` prints (`parseLsOutput_link_iff`).
-/

namespace RemotefsSsh

open Utf8 UnixPath Backtrack Effect

/-! ## Places for the size and the date -/

/-- A date as the expression knows it. -/
def IsDate (K : Classes) (s : Str) : Prop :=
  ∃ month gap day gap' clock, s = month ++ (gap ++ (day ++ (gap' ++ Clock.text clock))) ∧
    (month.length = 3 ∧ ∀ c ∈ month, K.word c = true) ∧ Gap gap ∧ Digits K 1 2 day ∧ Gap gap' ∧ clock.Valid K

/-- The months as `ls` prints them. -/
def monthNames : List Str :=
  ["Jan", "Feb", "Mar", "Apr", "May", "Jun", "Jul", "Aug", "Sep", "Oct", "Nov", "Dec"].map String.toList

/-- A date of one of the twelve months. -/
def IsMonthDate (K : Classes) (s : Str) : Prop := IsDate K s ∧ s.take 3 ∈ monthNames

/-- White space, digits from the `n`th character on, white space, a date, white space. -/
def PlaceAt (K : Classes) (Date : Str → Prop) (line : Str) (n : Nat) : Prop :=
  ∃ a w₁ size w₂ date w₃ b, line = a ++ (w₁ ++ (size ++ (w₂ ++ (date ++ (w₃ ++ b))))) ∧ Gap w₁ ∧
    Number K size ∧ Gap w₂ ∧
    Date date ∧ Gap w₃ ∧ (a ++ w₁).length = n

theorem Cut.placeAt {K : Classes} {c : Cut} (hc : c.Valid K) : PlaceAt K (IsDate K) c.text c.placed :=
  ⟨c.before, c.gap4, c.size, c.gap5, c.date, c.gap8, c.name, rfl, hc.gap4, hc.size, hc.gap5,
    ⟨c.month, c.gap6, c.day, c.gap7, c.clock, rfl, hc.month, hc.gap6, hc.day, hc.gap7, hc.clock⟩, hc.gap8, rfl⟩

/-- What the expression looks for at a place. -/
def placeRe (K : Classes) : Pat Char := .seq (digits K 1 none) (.seq blanks (.seq (dateRe K) blanks))

theorem hits_of_placeAt {K : Classes} {line : Str} {n : Nat} (h : PlaceAt K (IsDate K) line n) :
    (placeRe K).hits (line.drop n) ≠ [] := by
  obtain ⟨a, w₁, size, w₂, date, w₃, b, rfl, -, hsize, hw₂,
    ⟨month, gap, day, gap', clock, rfl, hmonth, hgap, hday, hgap',
    hclock⟩, hw₃, rfl⟩ := h
  have hre : (placeRe K).Describes _ :=
    Pat.describes_seq describes_number <| Pat.describes_seq describes_blanks <| Pat.describes_seq
      (Pat.describes_seq describes_exact <| Pat.describes_seq describes_blanks <| Pat.describes_seq describes_digits <|
        Pat.describes_seq describes_blanks describes_clock) describes_blanks
  rw [← List.append_assoc a w₁, List.drop_left]
  refine List.ne_nil_of_mem ((hre _ _).2 ⟨⟨size, w₂, ⟨month, gap, day, gap', clock⟩, w₃⟩, b, ?_,
    ⟨hsize, hw₂, ⟨hmonth, hgap, hday, hgap', hclock⟩, hw₃⟩, rfl⟩)
  simp [Form.andThen, Form.run, clockForm]

theorem PlaceAt.lt_length {K : Classes} {Date : Str → Prop} {line : Str} {n : Nat} (h : PlaceAt K Date line n) :
    n < line.length := by
  obtain ⟨a, w₁, size, w₂, date, w₃, b, rfl, -, hsize, -, -, -, rfl⟩ := h
  have := List.length_pos_iff.2 hsize.2
  simp only [List.length_append]
  omega

/-- A place is looked for at every character of the line. -/
theorem only_of_hits {K : Classes} {line : Str} {m : Nat}
    (h : (List.range line.length).all (fun n => n == m || ((placeRe K).hits (line.drop n)).isEmpty) = true) :
    ∀ n, PlaceAt K (IsDate K) line n → n = m := by
  intro n hn
  have hall := List.all_eq_true.1 h n (List.mem_range.2 hn.lt_length)
  rw [Bool.or_eq_true] at hall
  rcases hall with hall | hall
  · exact beq_iff_eq.1 hall
  · exact absurd (List.isEmpty_iff.1 hall) (hits_of_placeAt hn)

/-- The text starts with digits, and behind them and white space with a month. -/
def startsMonth (K : Classes) (s : Str) : Bool :=
  s.head?.any K.digit && monthNames.contains (((s.dropWhile K.digit).dropWhile isWhite).take 3)

theorem startsMonth_of_placeAt {K : Classes} {line : Str} {n : Nat} (h : PlaceAt K (IsMonthDate K) line n) :
    startsMonth K (line.drop n) = true := by
  obtain ⟨a, w₁, size, w₂, date, w₃, b, rfl, -, hsize, hw₂, ⟨⟨month, gap, day, gap', clock, rfl, hmonth, -⟩, hname⟩, -,
    rfl⟩ := h
  obtain ⟨x, hx⟩ : ∃ x, size.head? = some x := Option.isSome_iff_exists.1 (List.isSome_head?.2 hsize.2)
  have hword : month ≠ [] := fun hnil => by rw [hnil] at hmonth; cases hmonth.1
  have hdigits : ∀ r : Str, (size ++ (w₂ ++ r)).dropWhile K.digit = w₂ ++ r := by
    intro r
    rw [List.dropWhile_append_of_pos hsize.1]
    exact dropWhile_of_head (hw₂.head_not K.digit_not_white)
  have hblanks : ∀ r : Str, (w₂ ++ (month ++ r)).dropWhile isWhite = month ++ r := by
    intro r
    rw [List.dropWhile_append_of_pos hw₂.2]
    exact dropWhile_of_head fun y hy => K.word_not_white y (hmonth.2 y (head_append hword hy))
  rw [← List.append_assoc a w₁, List.drop_left]
  unfold startsMonth
  rw [List.head?_append_of_ne_nil _ hsize.2, hx, hdigits, List.append_assoc, hblanks]
  rw [List.take_append_of_le_length (by rw [hmonth.1])] at hname ⊢
  simpa [hsize.1 x (List.mem_of_mem_head? hx)] using hname

/-- A place with a month is looked for at every character of the line. -/
theorem only_of_months {K : Classes} {line : Str} {m : Nat}
    (h : (List.range line.length).all (fun n => n == m || !startsMonth K (line.drop n)) = true) :
    ∀ n, PlaceAt K (IsMonthDate K) line n → n = m := by
  intro n hn
  have hall := List.all_eq_true.1 h n (List.mem_range.2 hn.lt_length)
  rw [startsMonth_of_placeAt hn] at hall
  simpa using hall

namespace Columns

/-- The line has plain columns and a last column that starts with text. There are `n` blanks more than one in front of
the last column. -/
structure Laid (k : Columns) (letter : Char) (n : Nat) (shown : Str) : Prop where
  no_flag : k.flag = none
  short : k.clock.Short
  kind : typeLetter letter = true
  owner : ∀ c ∈ k.owner, isWhite c = false
  group : ∀ c ∈ k.group, isWhite c = false
  text : Txt shown
  head : ∀ c, shown.head? = some c → isWhite c = false

/-- The line has no other place for a size and a date. -/
structure Unambiguous (K : Classes) (k : Columns) (letter : Char) (n : Nat) (shown : Str) : Prop
    extends k.Laid letter n shown where
  only : ∀ m, PlaceAt K (IsDate K) (k.line letter (spaced n shown)) m → m = (k.cut letter shown).placed

section
variable {K : Classes} {k : Columns} {letter : Char} {n : Nat} {shown : Str} {c : Cut}

theorem Laid.cut_valid (h : k.Laid letter n shown) : (k.cut letter (spaced n shown)).Valid K :=
  Columns.cut_valid h.short h.kind (txt_spaced h.text)

theorem Laid.reads (h : k.Laid letter n shown) : ∃ c, Reads K (k.line letter (spaced n shown)) c :=
  exists_reads h.cut_valid (cut_text h.no_flag ..)

theorem Laid.newline_line (h : k.Laid letter n shown) : '\n' ∉ k.line letter (spaced n shown) :=
  k.newline_line (by have := h.kind; rintro rfl; cases this) (txt_spaced h.text).1

theorem Laid.readAs (h : k.Laid letter n shown) (hlast : (k.cut letter (spaced n shown)).LastPlace K)
    (hc : Reads K (k.line letter (spaced n shown)) c) : k.ReadAs letter shown c :=
  readAs_spaced h.no_flag h.short h.kind h.text h.head (fun x hx => h.owner x (List.mem_of_mem_head? hx))
    (fun x hx => h.group x (List.mem_of_getLast? hx)) hlast hc

theorem Unambiguous.lastPlace (h : k.Unambiguous K letter n shown) : (k.cut letter (spaced n shown)).LastPlace K := by
  intro d hd ht
  have hplace := Cut.placeAt hd
  rw [ht, cut_text h.no_flag] at hplace
  exact Nat.le_of_eq (h.only _ hplace)

/-- A line with a later place for the columns is read with a name that has fewer words, all of them words of what
stands in the last column. -/
theorem Laid.tokens_of_not_last (h : k.Laid letter n shown) (hlast : ¬ (k.cut letter (spaced n shown)).LastPlace K)
    (hc : Reads K (k.line letter (spaced n shown)) c) :
    c.kind = letter ∧ ∃ ts, ts ≠ [] ∧ tokens (spaced n shown) = ts ++ tokens c.name := by
  have hd : (k.cut letter (spaced n shown)).Valid K := h.cut_valid
  have htext : c.text = (k.cut letter (spaced n shown)).text := hc.text.trans (cut_text h.no_flag ..).symm
  have hlt : (k.cut letter (spaced n shown)).placed < c.placed := by
    by_contra hle
    exact hlast fun e he ht => (hc.lastPlace h.newline_line e he (ht.trans htext.symm)).trans (Nat.not_lt.1 hle)
  obtain ⟨ts, hne, htokens⟩ := Cut.tokens_later hd hc.valid htext hlt
  refine ⟨(List.cons.inj htext).1, ?_⟩
  -- the words before the name that is read are at least five
  rw [← List.append_assoc] at htokens
  rcases List.append_eq_append_iff.1 htokens with ⟨us, hus, hrest⟩ | ⟨us, hus, hrest⟩
  · refine ⟨us, ?_, hrest⟩
    rintro rfl
    have hlen := congrArg List.length hus
    have := List.length_pos_iff.2 hne
    simp only [List.append_nil, List.length_append, List.length_cons, List.length_nil] at hlen
    omega
  · have hlen := congrArg List.length hus
    have := List.length_pos_iff.2 hne
    simp only [List.length_append, List.length_cons, List.length_nil] at hlen
    omega

end

end Columns

section
variable {L : Libs} {k : Columns} {letter : Char} {n : Nat} {shown : Str}

/-- A line whose own columns are at the last place is read as them. -/
theorem parseLsOutput_laid (thisYear : Int) (dir : PathBuf) (h : k.Laid letter n shown)
    (hlast : (k.cut letter (Columns.spaced n shown)).LastPlace L.classes) :
    ∃ c, k.ReadAs letter shown c ∧ parseLsOutput L thisYear dir (k.line letter (Columns.spaced n shown)) =
      if (k.cut letter shown).entryName = dot ∨ (k.cut letter shown).entryName = dotDot then .err ()
      else .ok (c.file L thisYear dir) := by
  obtain ⟨c, hc⟩ := h.reads (K := L.classes)
  have hread := h.readAs hlast hc
  refine ⟨c, hread, ?_⟩
  rw [parseLsOutput_of_reads hc, hread.entryName]

theorem parseLsOutput_unambiguous (thisYear : Int) (dir : PathBuf) (h : k.Unambiguous L.classes letter n shown) :
    ∃ c, k.ReadAs letter shown c ∧ parseLsOutput L thisYear dir (k.line letter (Columns.spaced n shown)) =
      if (k.cut letter shown).entryName = dot ∨ (k.cut letter shown).entryName = dotDot then .err ()
      else .ok (c.file L thisYear dir) :=
  parseLsOutput_laid thisYear dir h.toLaid h.lastPlace

end

/-! ## Permission letters -/

/-- The letters of a class; the third one also tells of a special bit. -/
def UnixPexClass.letters (c : UnixPexClass) (special : Bool) (lower upper : Char) : Str :=
  [if c.read then 'r' else '-', if c.write then 'w' else '-',
    if special then (if c.execute then lower else upper) else if c.execute then 'x' else '-']

/-- The bits above the nine. -/
structure SpecialBits where
  setuid : Bool
  setgid : Bool
  sticky : Bool
deriving DecidableEq, Repr

def SpecialBits.none : SpecialBits := ⟨false, false, false⟩

/-- A mode as `ls` prints it. -/
def UnixPex.letters (m : UnixPex) (s : SpecialBits) : Str :=
  m.user.letters s.setuid 's' 'S' ++ (m.group.letters s.setgid 's' 'S' ++ m.others.letters s.sticky 't' 'T')

/-- Every letter but the dash is read as a bit that is set. -/
theorem ofU8_pex_letters (c : UnixPexClass) (special : Bool) {lower upper : Char}
    (hl : lower ≠ '-') (hu : upper ≠ '-') :
    UnixPexClass.ofU8 (pex (c.letters special lower upper)) = { c with execute := c.execute || special } := by
  obtain ⟨r, w, x⟩ := c
  cases r <;> cases w <;> cases x <;> cases special <;>
    simp [pex, UnixPexClass.letters, UnixPexClass.ofU8, hl, hu] <;> decide

theorem pexLetter_letters (m : UnixPex) (s : SpecialBits) : ∀ c ∈ m.letters s, pexLetter c = true := by
  have key : ∀ (cls : UnixPexClass) (special : Bool) (lower upper : Char), pexLetter lower = true →
    pexLetter upper = true →
      ∀ c ∈ cls.letters special lower upper, pexLetter c = true := by
    intro cls special lower upper hl hu c hc
    obtain ⟨r, w, x⟩ := cls
    cases r <;> cases w <;> cases x <;> cases special <;> simp [UnixPexClass.letters] at hc <;>
      rcases hc with rfl | rfl | rfl <;> first | rfl | assumption
  intro c hc
  rcases List.mem_append.1 hc with hc | hc
  · exact key _ _ _ _ rfl rfl c hc
  · rcases List.mem_append.1 hc with hc | hc
    · exact key _ _ _ _ rfl rfl c hc
    · exact key _ _ _ _ rfl rfl c hc

theorem modeOf_letters (m : UnixPex) (s : SpecialBits) :
    modeOf (m.letters s) =
      ⟨{ m.user with execute := m.user.execute || s.setuid }, { m.group with execute := m.group.execute || s.setgid },
        { m.others with execute := m.others.execute || s.sticky }⟩ := by
  have hs : 's' ≠ '-' := by decide
  have hS : 'S' ≠ '-' := by decide
  have ht : 't' ≠ '-' := by decide
  have hT : 'T' ≠ '-' := by decide
  rw [← ofU8_pex_letters m.user s.setuid hs hS, ← ofU8_pex_letters m.group s.setgid hs hS,
    ← ofU8_pex_letters m.others s.sticky ht hT]
  rfl

theorem or_eq_left_iff (x s : Bool) : (x || s) = x ↔ (s = true → x = true) := by
  cases x <;> cases s <;> simp

theorem modeOf_letters_iff (m : UnixPex) (s : SpecialBits) :
    modeOf (m.letters s) = m ↔ (s.setuid = true → m.user.execute = true) ∧ (s.setgid = true → m.group.execute = true) ∧
      (s.sticky = true → m.others.execute = true) := by
  rw [modeOf_letters, ← or_eq_left_iff, ← or_eq_left_iff, ← or_eq_left_iff]
  obtain ⟨⟨_, _, _⟩, ⟨_, _, _⟩, ⟨_, _, _⟩⟩ := m
  simp

/-! ## Files and directories -/

section
variable {L : Libs} {thisYear : Int} {dir : PathBuf} {k : Columns} {n : Nat}

theorem sanitize_of_isName {name : Str} (h : IsName name) : sanitize name = name := by
  unfold sanitize
  rw [fileName_of_name h]
  rfl

/-- The `File` is in `dir` under this name, and has what the columns say. -/
structure Exact (dir : PathBuf) (k : Columns) (kind : RowKind) (m : UnixPex) (name : Str) (f : File) : Prop where
  path : f.path = push dir name
  fileType : f.metadata.fileType = kind.fileType
  size : f.metadata.size.toNat = k.size
  mode : f.metadata.mode = some m
  symlink : f.metadata.symlink = none

theorem Cut.entryName_of_slash {c : Cut} (hkind : c.kind ≠ 'l') (hname : c.name ≠ []) (hslash : '/' ∉ c.name) :
    c.entryName = c.name := by
  have hshown : c.shown = (c.name, none) := if_neg hkind
  have hdots : ∀ s, s = dot ∨ s = dotDot → sanitize s = s := by rintro s (rfl | rfl) <;> decide
  unfold Cut.entryName
  rw [hshown]
  by_cases hd : c.name = dot ∨ c.name = dotDot
  · exact hdots _ hd
  · exact sanitize_of_isName ⟨hname, hslash, fun h => hd (Or.inl h), fun h => hd (Or.inr h)⟩

/-- **A line of a file or directory gives its name in the directory, its type, its size and its permission bits exactly
when no place for a size and a date stands behind its own**, so in particular when it has no other. -/
theorem parseLsOutput_exact_iff {m : UnixPex} {kind : RowKind} {name : Str}
    (hkind : kind = .regular ∨ kind = .directory)
    (hperms : k.perms = m.letters .none) (hsize : k.size < 18446744073709551616) (hname : IsName name)
    (h : k.Laid kind.letter n name) :
    (∃ f, parseLsOutput L thisYear dir (k.line kind.letter (Columns.spaced n name)) = .ok f ∧
      Exact dir k kind m name f) ↔
      (k.cut kind.letter (Columns.spaced n name)).LastPlace L.classes := by
  have hletter : kind.letter ≠ 'l' := by rcases hkind with rfl | rfl <;> decide
  constructor
  · rintro ⟨f, hf, hexact⟩
    by_contra hlast
    obtain ⟨c, hc, rfl, -, -⟩ := reads_of_parse hf
    obtain ⟨hk, ts, hne, htokens⟩ := h.tokens_of_not_last hlast hc
    have hslash : '/' ∉ c.name := by
      intro hm
      obtain ⟨t, ht, hmt⟩ := exists_token_of_mem hm (by decide)
      have hmem := mem_of_mem_tokens (htokens ▸ List.mem_append_right ts ht) hmt
      rcases List.mem_append.1 hmem with hmem | hmem
      · exact absurd (List.eq_of_mem_replicate hmem) (by decide)
      · exact hname.2.1 hmem
    -- the path tells the two names apart
    have hpath : push dir c.entryName = push dir name := hexact.path
    rw [Cut.entryName_of_slash (hk ▸ hletter) hc.valid.name.2 hslash] at hpath
    have heq : c.name = name := push_inj (not_absolute_of_slash hslash) (not_absolute_of_slash hname.2.1) hpath
    have hspaced : tokens (Columns.spaced n name) = tokens name := tokens_blank_append (blank_replicate n) name
    rw [hspaced, heq] at htokens
    exact hne (List.self_eq_append_left.1 htokens)
  · intro hlast
    obtain ⟨c, hread, hparse⟩ := parseLsOutput_laid (L := L) thisYear dir h hlast
    have hentry : (k.cut kind.letter name).entryName = name := Cut.entryName_of_slash hletter hname.1 hname.2.1
    have hshown : c.shown = (name, none) := hread.shown.trans (if_neg hletter)
    rw [hentry, if_neg (not_or.2 ⟨hname.2.2.1, hname.2.2.2⟩)] at hparse
    refine ⟨_, hparse, ?_, ?_, ?_, ?_, ?_⟩
    · show push dir c.entryName = _
      rw [hread.entryName, hentry]
    · show c.fileType = _
      unfold Cut.fileType
      rw [hshown, hread.kind]
      rcases hkind with rfl | rfl <;> rfl
    · show ((parseU64 c.size).getD 0).toNat = _
      have hdecimal := parseU64_decimal (UInt64.ofNatLT k.size hsize)
      rw [UInt64.toNat_ofNatLT] at hdecimal
      rw [hread.size, hdecimal, Option.getD_some, UInt64.toNat_ofNatLT]
    · show some (modeOf c.perms) = _
      rw [hread.perms, hperms, (modeOf_letters_iff m .none).2 (by simp [SpecialBits.none])]
    · show c.shown.2 = _
      rw [hshown]

end

/-! ### A line -/

/-- `rw-r--r--` -/
def sampleMode : UnixPex := ⟨⟨true, true, false⟩, ⟨true, false, false⟩, ⟨true, false, false⟩⟩

/-- The columns `rw-r--r-- 1 0 0 1 Jan 01 2020`, with the paddings that are asked for. -/
def sampleColumns (pads : Column → Nat) : Columns where
  perms := sampleMode.letters .none
  flag := none
  links := 1
  owner := ['0']
  group := ['0']
  size := 1
  month := "Jan".toList
  day := "01".toList
  clock := .year "2020".toList
  pads
  perms_letters := ⟨rfl, pexLetter_letters _ _⟩
  flag_printed := plainRow.flag_printed
  owner_text := ⟨by decide, by decide⟩
  group_text := ⟨by decide, by decide⟩
  month_letters := plainRow.month_letters
  day_digits := plainRow.day_digits
  clock_printed := plainRow.clock_printed

theorem sampleColumns_laid {pads : Column → Nat} {letter : Char} {n : Nat} {shown : Str}
    (hletter : typeLetter letter = true)
    (htext : Txt shown) (hhead : ∀ c, shown.head? = some c → isWhite c = false) :
    (sampleColumns pads).Laid letter n shown where
  no_flag := rfl
  short := rfl
  kind := hletter
  owner c hc := by
    rw [List.mem_singleton.1 hc]
    decide
  group c hc := by
    rw [List.mem_singleton.1 hc]
    decide
  text := htext
  head := hhead

/-- What is left to check of a line with these columns. -/
theorem sampleColumns_unambiguous {pads : Column → Nat} {letter : Char} {n : Nat} {shown : Str}
    (hletter : typeLetter letter = true) (htext : Txt shown) (hhead : ∀ c, shown.head? = some c → isWhite c = false)
    (hhits : (List.range ((sampleColumns pads).line letter (Columns.spaced n shown)).length).all (fun i =>
      i == ((sampleColumns pads).cut letter shown).placed ||
        ((placeRe Classes.ascii).hits (((sampleColumns pads).line letter (Columns.spaced n shown)).drop i)).isEmpty) =
          true) :
    (sampleColumns pads).Unambiguous Classes.ascii letter n shown where
  toLaid := sampleColumns_laid hletter htext hhead
  only := only_of_hits hhits

def noPads (_ : Column) : Nat := 0

/-- A wide column in front of the size. -/
def widePads (i : Column) : Nat := if i = .size then 3 else 0

set_option maxRecDepth 20000 in
theorem parseLsOutput_exact_wide :
    ∃ f, parseLsOutput sampleLibs 2024 "/srv".toList "-rw-r--r-- 1 0 0    1 Jan 01 2020 a".toList = .ok f ∧
      Exact "/srv".toList (sampleColumns widePads) .regular sampleMode ['a'] f := by
  have hline : "-rw-r--r-- 1 0 0    1 Jan 01 2020 a".toList =
      (sampleColumns widePads).line '-' (Columns.spaced 0 ['a']) := by decide
  have h : (sampleColumns widePads).Unambiguous sampleLibs.classes RowKind.regular.letter 0 ['a'] :=
    @sampleColumns_unambiguous widePads '-' 0 ['a'] rfl ⟨by decide, by decide⟩ (fun c hc => by cases hc; decide)
      (by decide +kernel)
  rw [hline]
  exact (@parseLsOutput_exact_iff sampleLibs 2024 "/srv".toList _ 0 sampleMode .regular ['a']
    (Or.inl rfl) rfl (by decide)
    (by decide) h.toLaid).2 h.lastPlace

def reportName : Str := "Report 2 for 10 2024 final.txt".toList

/-- What a line for `Report 2 for 10 2024 final.txt` gives. -/
def reportEntry : File where
  path := "/srv/final.txt".toList
  metadata :=
    { accessed := none, created := none, fileType := .file, gid := none, mode := some sampleMode,
      modified := some .UNIX_EPOCH, size := 2, symlink := none, uid := none }

set_option maxRecDepth 20000 in
/-- Three letters of a name are taken for a month, with no second date in the line. -/
theorem parseLsOutput_misreads_report :
    (sampleColumns noPads).Laid '-' 0 reportName ∧ IsName reportName ∧
      (∀ i, PlaceAt Classes.ascii (IsMonthDate Classes.ascii)
        ((sampleColumns noPads).line '-' (Columns.spaced 0 reportName)) i →
        i = ((sampleColumns noPads).cut '-' reportName).placed) ∧
      ¬ ∃ f, parseLsOutput sampleLibs 2024 "/srv".toList
        ((sampleColumns noPads).line '-' (Columns.spaced 0 reportName)) =
          .ok f ∧ Exact "/srv".toList (sampleColumns noPads) .regular sampleMode reportName f := by
  refine ⟨sampleColumns_laid rfl ⟨by decide, by decide⟩ fun c hc => by cases hc; decide, by decide,
    only_of_months (by decide +kernel), ?_⟩
  have hrun : parseLsOutput sampleLibs 2024 "/srv".toList
      ((sampleColumns noPads).line '-' (Columns.spaced 0 reportName)) = .ok reportEntry := by decide +kernel
  rintro ⟨f, hf, hexact⟩
  rw [hrun] at hf
  cases hf
  have hsize := hexact.size
  revert hsize
  decide

/-! ## Owner, group and mode -/

namespace Columns

/-- Numbers for owner and group are read when they have no padding around them. -/
theorem uid_gid_iff {k : Columns} {u g : UInt32} (howner : k.owner = decimal u.toNat)
    (hgroup : k.group = decimal g.toNat) :
    k.uid = some u ∧ k.gid = some g ↔ k.pads .group = 0 ∧ k.pads .size = 0 := by
  have hwhite : ∀ c ∈ k.group, isWhite c = false := by
    rw [hgroup]
    exact fun c hc => isWhite_of_isDigit (isDigit_of_mem_decimal hc)
  have hgid : k.gid = if k.pads .size = 0 then some g else none := by
    unfold gid
    rw [lastWord_of_not_white hwhite, hgroup, parseU32_decimal]
  have huid : k.uid = if k.pads .group = 0 ∧ k.pads .size ≤ 1 then some u else none := by
    unfold uid
    rw [howner, parseU32_decimal]
    refine if_congr ?_ rfl rfl
    simp only [List.any_eq_false, Bool.not_eq_true]
    exact ⟨fun h => ⟨h.1, h.2.1⟩, fun h => ⟨h.1, h.2, hwhite⟩⟩
  rw [huid, hgid]
  by_cases h₂ : k.pads .group = 0
  · by_cases h₃ : k.pads .size = 0
    · simp [h₂, h₃]
    · simp [h₃]
  · simp [h₂]

end Columns

section
variable {L : Libs} {thisYear : Int} {dir : PathBuf} {k : Columns} {letter : Char} {n : Nat} {shown : Str}

/-- **Owner, group and mode of an unambiguous line are read exactly when neither the owner nor the group has padding
behind it and no special bit stands without its execute bit.** -/
theorem parseLsOutput_owner_mode_iff {u g : UInt32} {m : UnixPex} {s : SpecialBits} (howner : k.owner = decimal u.toNat)
    (hgroup : k.group = decimal g.toNat) (hperms : k.perms = m.letters s) (h : k.Unambiguous L.classes letter n shown)
    (hdot : (k.cut letter shown).entryName ≠ dot) (hdotdot : (k.cut letter shown).entryName ≠ dotDot) :
    (∃ f, parseLsOutput L thisYear dir (k.line letter (Columns.spaced n shown)) = .ok f ∧
        f.metadata.uid = some u ∧ f.metadata.gid = some g ∧ f.metadata.mode = some m) ↔
      (k.pads .group = 0 ∧ k.pads .size = 0) ∧ (s.setuid = true → m.user.execute = true) ∧
        (s.setgid = true → m.group.execute = true) ∧ (s.sticky = true → m.others.execute = true) := by
  obtain ⟨c, hread, hparse⟩ := parseLsOutput_unambiguous thisYear dir h
  rw [if_neg (not_or.2 ⟨hdot, hdotdot⟩)] at hparse
  have huid : (c.file L thisYear dir).metadata.uid = k.uid := hread.uid
  have hgid : (c.file L thisYear dir).metadata.gid = k.gid := hread.gid
  have hmode : (c.file L thisYear dir).metadata.mode = some (modeOf (m.letters s)) := by
    rw [← hperms, ← hread.perms]
    rfl
  rw [← Columns.uid_gid_iff howner hgroup, ← modeOf_letters_iff, hparse]
  constructor
  · rintro ⟨f, hf, hu, hg, hm⟩
    cases hf
    rw [huid] at hu
    rw [hgid] at hg
    rw [hmode] at hm
    exact ⟨⟨hu, hg⟩, Option.some.inj hm⟩
  · rintro ⟨⟨hu, hg⟩, hm⟩
    exact ⟨_, rfl, huid.trans hu, hgid.trans hg, hmode.trans (congrArg some hm)⟩

end

set_option maxRecDepth 20000 in
theorem parseLsOutput_owner_mode_plain :
    ∃ f, parseLsOutput sampleLibs 2024 "/srv".toList "-rw-r--r-- 1 0 0 1 Jan 01 2020 a".toList = .ok f ∧
      f.metadata.uid = some 0 ∧ f.metadata.gid = some 0 ∧ f.metadata.mode = some sampleMode := by
  have hline : "-rw-r--r-- 1 0 0 1 Jan 01 2020 a".toList = (sampleColumns noPads).line '-'
    (Columns.spaced 0 ['a']) := by
    decide
  have h : (sampleColumns noPads).Unambiguous sampleLibs.classes '-' 0 ['a'] :=
    @sampleColumns_unambiguous noPads '-' 0 ['a'] rfl ⟨by decide, by decide⟩ (fun c hc => by cases hc; decide)
      (by decide +kernel)
  rw [hline]
  exact (@parseLsOutput_owner_mode_iff sampleLibs 2024 "/srv".toList (sampleColumns noPads) '-' 0
    ['a'] 0 0 sampleMode .none
    rfl rfl rfl h (by decide) (by decide)).2 ⟨⟨rfl, rfl⟩, by simp [SpecialBits.none]⟩

set_option maxRecDepth 20000 in
/-- A second blank behind the owner is read as a part of it. -/
theorem parseLsOutput_loses_owner :
    ¬ ∃ f, parseLsOutput sampleLibs 2024 "/srv".toList "-rw-r--r-- 1 0  0 1 Jan 01 2020 a".toList = .ok f ∧
      f.metadata.uid = some 0 ∧ f.metadata.gid = some 0 ∧ f.metadata.mode = some sampleMode := by
  have hrun : parseLsOutput sampleLibs 2024 "/srv".toList "-rw-r--r-- 1 0  0 1 Jan 01 2020 a".toList =
      .ok { plainEntry ['a'] with metadata := { (plainEntry ['a']).metadata with gid := some 0 } } := by decide +kernel
  rintro ⟨f, hf, huid, -⟩
  rw [hrun] at hf
  cases hf
  cases huid

/-! ## Links -/

theorem arrow_ne_nil : arrow ≠ [] := List.cons_ne_nil _ _

theorem arrowCut_of_first {name target : Str} (hfirst :
    splitFirst arrow (name ++ (arrow ++ target)) = some (name, target))
    (hrest : splitFirst arrow target = none) : arrowCut (name ++ (arrow ++ target)) = (name, some target) := by
  unfold arrowCut
  rw [hfirst]
  simp only [hrest]

/-- The target is read only when the arrow in front of it is the first and the last one. -/
theorem first_of_arrowCut {name target : Str} (hname : ¬ arrow <:+: name)
    (h : (arrowCut (name ++ (arrow ++ target))).2 = some target) :
    splitFirst arrow (name ++ (arrow ++ target)) = some (name, target) ∧ splitFirst arrow target = none := by
  unfold arrowCut at h
  cases hfirst : splitFirst arrow (name ++ (arrow ++ target)) with
  | none => rw [hfirst] at h; cases h
  | some p =>
    obtain ⟨a, b⟩ := p
    rw [hfirst] at h
    have htext := splitFirst_eq_some hfirst
    cases hrest : splitFirst arrow b with
    | none =>
      simp only [hrest, Option.some.injEq] at h
      subst h
      obtain rfl := List.append_cancel_right htext
      exact ⟨rfl, hrest⟩
    | some q =>
      obtain ⟨t, r⟩ := q
      simp only [hrest, Option.some.injEq] at h
      subst h
      -- then the first arrow would be in the name
      exfalso
      rw [splitFirst_eq_some hrest] at htext
      have hlen := congrArg List.length htext
      simp only [List.length_append] at hlen
      have hlong : a ++ arrow <+: name ++ (arrow ++ t) := by
        rw [htext, ← List.append_assoc]
        exact List.prefix_append _ _
      have hpre : a ++ arrow <+: name := by
        refine List.prefix_of_prefix_length_le hlong (List.prefix_append _ _) ?_
        rw [List.length_append]
        omega
      exact hname ((List.suffix_append a arrow).isInfix.trans hpre.isInfix)

/-- An arrow that begins in a name without arrows and ends behind it begins with the name's last three characters. -/
theorem arrow_overlap {name : Str} (hname : ¬ arrow <:+: name) :
    arrow <:+: name ++ arrow.dropLast ↔ arrow.dropLast <:+ name := by
  constructor
  · rintro ⟨x, y, h⟩
    rcases List.append_eq_append_iff.1 h with ⟨t, ht, -⟩ | ⟨t, ht, hy⟩
    · exact absurd ⟨x, t, ht.symm⟩ hname
    · -- the arrow ends in `t`, which is a part of the second one that ends with a blank
      have hlast : (name ++ t).getLast? = some ' ' := by
        rw [← ht]
        exact List.getLast?_append_of_ne_nil x arrow_ne_nil
      have hy : [' ', '-', '>'] = t ++ y := hy
      match t, ht, hlast, hy with
      | [], ht, _, _ =>
        rw [List.append_nil] at ht
        exact absurd ⟨x, [], by rw [List.append_nil, ht]⟩ hname
      | [a], ht, _, hy =>
        cases hy
        exact ⟨x, List.append_cancel_right ((show x ++ arrow.dropLast ++ [' '] = name ++
          [' '] by rw [← ht]; simp [arrow]))⟩
      | [_, _], _, hlast, hy =>
        cases hy
        simp at hlast
      | [_, _, _], _, hlast, hy =>
        cases hy
        simp at hlast
      | _ :: _ :: _ :: _ :: _, _, _, hy => simp at hy
  · rintro ⟨x, hx⟩
    refine ⟨x, ['-', '>'], ?_⟩
    rw [← hx]
    simp [arrow]

section
variable {L : Libs} {thisYear : Int} {dir : PathBuf} {k : Columns} {n : Nat}

/-- **An unambiguous line of a symbolic link gives its name and its target exactly when the name does not end in the
beginning of an arrow and is not `.` or `..`, and the target has no arrow in it.** -/
theorem parseLsOutput_link_iff {name target : Str} (hne : name ≠ []) (hslash : '/' ∉ name) (hname : ¬ arrow <:+: name)
    (h : k.Unambiguous L.classes 'l' n (name ++ (arrow ++ target))) :
    (∃ f, parseLsOutput L thisYear dir (k.line 'l' (Columns.spaced n (name ++ (arrow ++ target)))) = .ok f ∧
        f.path = push dir name ∧ f.metadata.fileType = .symlink ∧ f.metadata.symlink = some target) ↔
      (name ≠ dot ∧ name ≠ dotDot) ∧ ¬ arrow.dropLast <:+ name ∧ ¬ arrow <:+: target := by
  obtain ⟨c, hread, hparse⟩ := parseLsOutput_unambiguous thisYear dir h
  have hshown : (k.cut 'l' (name ++ (arrow ++ target))).shown = arrowCut (name ++ (arrow ++ target)) := if_pos rfl
  have hlink : (c.file L thisYear dir).metadata.symlink = (arrowCut (name ++ (arrow ++ target))).2 := by
    rw [← hshown, ← hread.shown]
    rfl
  constructor
  · rintro ⟨f, hf, -, -, hsymlink⟩
    rw [hparse] at hf
    split at hf
    · cases hf
    · rename_i hdots
      cases hf
      obtain ⟨hfirst, hrest⟩ := first_of_arrowCut hname (hlink ▸ hsymlink)
      have hentry : (k.cut 'l' (name ++ (arrow ++ target))).entryName = sanitize name := by
        unfold Cut.entryName
        rw [hshown, arrowCut_of_first hfirst hrest]
      rw [hentry, not_or] at hdots
      rw [splitFirst_append_iff arrow_ne_nil, arrow_overlap hname] at hfirst
      refine ⟨⟨?_, ?_⟩, hfirst, (splitFirst_eq_none arrow_ne_nil).1 hrest⟩
      · rintro rfl
        exact hdots.1 (by decide)
      · rintro rfl
        exact hdots.2 (by decide)
  · rintro ⟨⟨hdot, hdotdot⟩, hfirst, hrest⟩
    rw [← arrow_overlap hname, ← splitFirst_append_iff arrow_ne_nil name target] at hfirst
    have hcut := arrowCut_of_first hfirst ((splitFirst_eq_none arrow_ne_nil).2 hrest)
    have hentry : (k.cut 'l' (name ++ (arrow ++ target))).entryName = name := by
      unfold Cut.entryName
      rw [hshown, hcut]
      exact sanitize_of_isName ⟨hne, hslash, hdot, hdotdot⟩
    rw [hentry, if_neg (not_or.2 ⟨hdot, hdotdot⟩)] at hparse
    refine ⟨_, hparse, ?_, ?_, ?_⟩
    · show push dir c.entryName = _
      rw [hread.entryName, hentry]
    · show c.fileType = _
      unfold Cut.fileType
      rw [hread.shown, hshown, hcut]
      rfl
    · rw [hlink, hcut]

end

set_option maxRecDepth 20000 in
theorem parseLsOutput_link_plain :
    ∃ f, parseLsOutput sampleLibs 2024 "/srv".toList "lrw-r--r-- 1 0 0 1 Jan 01 2020 a -> b".toList = .ok f ∧
      f.path = "/srv/a".toList ∧ f.metadata.fileType = .symlink ∧ f.metadata.symlink = some "b".toList := by
  have hline : "lrw-r--r-- 1 0 0 1 Jan 01 2020 a -> b".toList =
      (sampleColumns noPads).line 'l' (Columns.spaced 0 (['a'] ++ (arrow ++ ['b']))) := by decide
  have h : (sampleColumns noPads).Unambiguous sampleLibs.classes 'l' 0 (['a'] ++ (arrow ++ ['b'])) :=
    @sampleColumns_unambiguous noPads 'l' 0 (['a'] ++ (arrow ++ ['b'])) rfl ⟨by decide, by decide⟩
      (fun c hc => by cases hc; decide) (by decide +kernel)
  rw [hline]
  exact (@parseLsOutput_link_iff sampleLibs 2024 "/srv".toList (sampleColumns noPads) 0 ['a'] ['b']
    (by decide) (by decide)
    (by decide) h).2 ⟨⟨by decide, by decide⟩, by decide, by decide⟩

/-- What a line for `a -> b -> c` gives. -/
def cutLink : File where
  path := "/srv/a".toList
  metadata :=
    { accessed := none, created := none, fileType := .symlink, gid := some 0, mode := some sampleMode,
      modified := SystemTime.UNIX_EPOCH.checkedAddSecs 1577836800, size := 1, symlink := some ['b'], uid := some 0 }

set_option maxRecDepth 20000 in
/-- The target `b -> c` is cut at its arrow. -/
theorem parseLsOutput_cuts_target :
    ¬ ∃ f, parseLsOutput sampleLibs 2024 "/srv".toList "lrw-r--r-- 1 0 0 1 Jan 01 2020 a -> b -> c".toList = .ok f ∧
      f.path = "/srv/a".toList ∧ f.metadata.fileType = .symlink ∧ f.metadata.symlink = some "b -> c".toList := by
  have hrun : parseLsOutput sampleLibs 2024 "/srv".toList "lrw-r--r-- 1 0 0 1 Jan 01 2020 a -> b -> c".toList =
      .ok cutLink := by decide +kernel
  rintro ⟨f, hf, -, -, hlink⟩
  rw [hrun] at hf
  cases hf
  revert hlink
  decide

end RemotefsSsh
