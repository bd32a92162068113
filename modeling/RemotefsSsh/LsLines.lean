import RemotefsSsh.LsMatch

/-!
# The lines of `ls` in the POSIX long format

`Columns` is what stands between the type letter and the name, `Columns.line` the whole line. The same
columns stand in a listing, where the name is that of the entry, and in the answer to `ls` of one path,
where it is the path itself.
-/

namespace RemotefsSsh

open Utf8 UnixPath

inductive RowKind where
  | regular
  | directory
  | symlink (target : Str)
deriving DecidableEq, Repr

namespace RowKind

def letter : RowKind → Char
  | regular => '-'
  | directory => 'd'
  | symlink _ => 'l'

def fileType : RowKind → FileType
  | regular => .file
  | directory => .directory
  | symlink _ => .symlink

/-- The last column. -/
def shown (name : Str) : RowKind → Str
  | symlink target => name ++ (arrow ++ target)
  | _ => name

end RowKind

/-- A time as `%H:%M` or a year as `%Y` prints it. -/
def Clock.Printed : Clock → Prop
  | time hours minutes => (∀ c ∈ hours ++ minutes, c.isDigit = true) ∧ hours.length = 2 ∧ minutes.length = 2
  | year y => (∀ c ∈ y, c.isDigit = true) ∧ y ≠ []

/-- A time, or one of the years 1000 to 9999. -/
def Clock.Short : Clock → Prop
  | time .. => True
  | year y => y.length = 4

/-- What stands between the permissions and the name. -/
inductive Column where
  | links
  | owner
  | group
  | size
  | month
  | day
  | clock
deriving DecidableEq, Repr

def pad (n : Nat) : Str := List.replicate (n + 1) ' '

/-- The columns between the type letter and the name. `pads` are the widths of the gaps in front of them,
beyond the one blank that each has. -/
structure Columns where
  perms : Str
  flag : Option Char
  links : Nat
  owner : Str
  group : Str
  size : Nat
  month : Str
  day : Str
  clock : Clock
  pads : Column → Nat
  perms_letters : perms.length = 9 ∧ ∀ c ∈ perms, pexLetter c = true
  flag_printed : ∀ c, flag = some c → isWhite c = false
  owner_text : Txt owner
  group_text : Txt group
  month_letters : month.length = 3 ∧ ∀ c ∈ month, c.isAlphanum = true
  day_digits : (∀ c ∈ day, c.isDigit = true) ∧ 1 ≤ day.length ∧ day.length ≤ 2
  clock_printed : clock.Printed

namespace Columns

/-- From the flag to the name. -/
def text (k : Columns) : Str :=
  pad (k.pads .links) ++ (decimal k.links ++ (pad (k.pads .owner) ++ (k.owner ++ (pad (k.pads .group) ++ (k.group ++
    (pad (k.pads .size) ++ (decimal k.size ++ (pad (k.pads .month) ++ (k.month ++ (pad (k.pads .day) ++ (k.day ++
    (pad (k.pads .clock) ++ (k.clock.text ++ [' '])))))))))))))

/-- The columns with a letter before and a name behind them. -/
def line (k : Columns) (letter : Char) (shown : Str) : Str :=
  letter :: (k.perms ++ (k.flag.toList ++ (k.text ++ shown)))

/-- The columns as the expression should find them. -/
def cut (k : Columns) (letter : Char) (shown : Str) : Cut where
  kind := letter
  perms := k.perms
  gap1 := pad (k.pads .links)
  links := decimal k.links
  gap2 := pad (k.pads .owner)
  owner := k.owner
  gap3 := pad (k.pads .group)
  group := k.group
  gap4 := pad (k.pads .size)
  size := decimal k.size
  gap5 := pad (k.pads .month)
  month := k.month
  gap6 := pad (k.pads .day)
  day := k.day
  gap7 := pad (k.pads .clock)
  clock := k.clock
  gap8 := [' ']
  name := shown

end Columns

theorem gap_pad (n : Nat) : Gap (pad n) :=
  ⟨by simp [pad], fun c hc => by rw [List.eq_of_mem_replicate hc]; decide⟩

theorem newline_not_mem_pad (n : Nat) : '\n' ∉ pad n := fun h => by
  have := List.eq_of_mem_replicate h
  revert this
  decide

theorem newline_of_digits {s : Str} (h : ∀ c ∈ s, c.isDigit = true) : '\n' ∉ s := fun hm => by
  simpa using h _ hm

theorem Clock.Printed.newline {k : Clock} (h : k.Printed) : '\n' ∉ k.text := by
  cases k with
  | time hours minutes =>
    have := newline_of_digits h.1
    simp only [Clock.text, List.mem_append, List.mem_cons] at this ⊢
    simpa using this
  | year y => exact newline_of_digits h.1

theorem Clock.Printed.valid {K : Classes} {k : Clock} (h : k.Printed) (hshort : k.Short) : k.Valid K := by
  have hdigit : ∀ {s : Str}, (∀ c ∈ s, c.isDigit = true) → ∀ c ∈ s, K.digit c = true :=
    fun h c hc => K.digit_of_isDigit (h c hc)
  cases k with
  | time hours minutes =>
    obtain ⟨hd, hh, hm⟩ := h
    simp only [List.mem_append] at hd
    exact ⟨⟨hdigit fun c hc => hd c (Or.inl hc), by omega, by omega⟩,
      ⟨hdigit fun c hc => hd c (Or.inr hc), by omega, by omega⟩⟩
  | year y =>
    have hlen : y.length = 4 := hshort
    exact ⟨hdigit h.1, by omega, by omega⟩

theorem RowKind.typeLetter_letter (kind : RowKind) : typeLetter kind.letter = true := by
  cases kind <;> simp [RowKind.letter, typeLetter]

theorem RowKind.shown_ne_nil (kind : RowKind) {name : Str} (h : name ≠ []) : kind.shown name ≠ [] := by
  unfold shown
  split
  · simp [arrow]
  · exact h

theorem RowKind.newline_shown {kind : RowKind} {name : Str} (hname : '\n' ∉ name)
    (htarget : ∀ t, kind = .symlink t → '\n' ∉ t) : '\n' ∉ kind.shown name := by
  unfold shown
  split
  · simp only [List.mem_append, not_or]
    exact ⟨hname, by decide, htarget _ rfl⟩
  · exact hname

theorem entryName_of_last {K : Classes} {line : Str} {c d : Cut} (h : Reads K line c)
    (hn : '\n' ∉ line) (hd : d.Valid K)
    (ht : d.text = line) (hlast : d.LastPlace K) (hsnug : d.Snug) : c.kind = d.kind ∧ c.shown = d.shown := by
  subst ht
  obtain ⟨hk, hname⟩ := h.name_of_last hn hd hlast hsnug
  refine ⟨hk, ?_⟩
  unfold Cut.shown
  rw [hk, hname]

namespace Columns
variable {k : Columns} {K : Classes}

theorem newline_text (k : Columns) : '\n' ∉ k.text := by
  have hmonth : '\n' ∉ k.month := fun h => by simpa using k.month_letters.2 _ h
  simp only [text, List.mem_append, List.mem_singleton, not_or]
  exact ⟨newline_not_mem_pad _, newline_not_mem_decimal _, newline_not_mem_pad _, k.owner_text.1,
    newline_not_mem_pad _, k.group_text.1, newline_not_mem_pad _, newline_not_mem_decimal _, newline_not_mem_pad _,
    hmonth, newline_not_mem_pad _, newline_of_digits k.day_digits.1, newline_not_mem_pad _, k.clock_printed.newline,
    by decide⟩

theorem newline_line (k : Columns) {letter : Char} {shown : Str} (hletter : '\n' ≠ letter) (hshown : '\n' ∉ shown) :
    '\n' ∉ k.line letter shown := by
  have hperms : '\n' ∉ k.perms := fun h => by simpa [pexLetter] using k.perms_letters.2 _ h
  have hflag : '\n' ∉ k.flag.toList := fun h => by
    have := k.flag_printed '\n' (by simpa using h)
    rw [isWhite_newline] at this
    cases this
  simp only [line, List.mem_cons, List.mem_append, not_or]
  exact ⟨hletter, hperms, hflag, k.newline_text, hshown⟩

/-- No cut of a line has anything but white space behind the permissions. -/
theorem no_cut_of_flag {x : Char} (hflag : k.flag = some x) {letter : Char} {shown : Str} {c : Cut} (hc : c.Valid K) :
    c.text ≠ k.line letter shown := by
  intro h
  rw [line, hflag] at h
  simp only [Cut.text, Cut.before, List.cons_append, List.append_assoc, List.cons.injEq] at h
  obtain ⟨_, h⟩ := List.append_inj h.2 (by rw [hc.perms.1, k.perms_letters.1])
  have hx : x ∈ c.gap1 := head_append hc.gap1.1 (by rw [h]; rfl)
  have hw := hc.gap1.2 x hx
  rw [k.flag_printed x hflag] at hw
  cases hw

theorem cut_valid (hshort : k.clock.Short) {letter : Char} (hletter : typeLetter letter = true) {shown : Str}
    (hshown : Txt shown) : (k.cut letter shown).Valid K where
  kind := hletter
  perms := k.perms_letters
  gap1 := gap_pad _
  links := number_decimal K _
  gap2 := gap_pad _
  owner := k.owner_text
  gap3 := gap_pad _
  group := k.group_text
  gap4 := gap_pad _
  size := number_decimal K _
  gap5 := gap_pad _
  month := ⟨k.month_letters.1, fun c hc => K.word_of_isAlphanum (k.month_letters.2 c hc)⟩
  gap6 := gap_pad _
  day := ⟨fun c hc => K.digit_of_isDigit (k.day_digits.1 c hc), k.day_digits.2⟩
  gap7 := gap_pad _
  clock := k.clock_printed.valid hshort
  gap8 := gap_space
  name := hshown

/-- A last column without digits leaves the columns at the last place. -/
theorem lastPlace_of_no_digit (hshort : k.clock.Short) {letter : Char}
    (hletter : typeLetter letter = true) {shown : Str}
    (hshown : Txt shown) (hdigit : shown.all (fun c => !K.digit c) = true) : (k.cut letter shown).LastPlace K := by
  refine Cut.lastPlace_of_no_digit (cut_valid hshort hletter hshown) ?_
  show ∀ x ∈ shown, K.digit x = false
  simpa using hdigit

theorem cut_text (hflag : k.flag = none) (letter : Char) (shown : Str) :
    (k.cut letter shown).text = k.line letter shown := by
  rw [line, hflag]
  simp [cut, text, Cut.text, Cut.before, Cut.after, Cut.date]

end Columns

end RemotefsSsh
