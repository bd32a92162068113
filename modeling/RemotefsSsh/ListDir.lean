import Mathlib.Data.List.Forall2
import RemotefsSsh.Listing
import RemotefsSsh.LsLines

/-!
# Which entries `list_dir` returns (ssh/scp.rs:302-334)

`Row.line` prints a regular file, a directory or a symbolic link in the POSIX long format,
`Entry.line` also what is neither (devices, sockets, pipes), and `reply` the whole listing with its
header line. `list_dir` returns one `File` for each row that is `Legible`, in order and nothing else;
the others are left out or come back under another name (`listDir_shows_iff`).
-/

namespace RemotefsSsh

open Utf8 UnixPath Effect Prog

/-! ## The POSIX long format -/

/-- A line of the listing. `pads` are the widths of the gaps in front of the columns, beyond the one blank
that each has. -/
structure Row where
  kind : RowKind
  perms : Str
  flag : Option Char
  links : Nat
  owner : Str
  group : Str
  size : Nat
  month : Str
  day : Str
  clock : Clock
  pads : Column → Nat
  name : Str
  perms_letters : perms.length = 9 ∧ ∀ c ∈ perms, pexLetter c = true
  flag_printed : ∀ c, flag = some c → isWhite c = false
  owner_text : Txt owner
  group_text : Txt group
  month_letters : month.length = 3 ∧ ∀ c ∈ month, c.isAlphanum = true
  day_digits : (∀ c ∈ day, c.isDigit = true) ∧ 1 ≤ day.length ∧ day.length ≤ 2
  clock_printed : clock.Printed
  name_text : Txt name
  name_component : '/' ∉ name
  target_text : ∀ t, kind = .symlink t → '\n' ∉ t
  /-- `.` and `..` are directories. -/
  dots : name = dot ∨ name = dotDot → kind = .directory ∧ clock.Short

namespace Row

def shown (r : Row) : Str := r.kind.shown r.name

/-- The columns between the flag and the name. -/
def columns (r : Row) : Str :=
  pad (r.pads .links) ++ (decimal r.links ++ (pad (r.pads .owner) ++ (r.owner ++ (pad (r.pads .group) ++ (r.group ++
    (pad (r.pads .size) ++ (decimal r.size ++ (pad (r.pads .month) ++ (r.month ++ (pad (r.pads .day) ++ (r.day ++
    (pad (r.pads .clock) ++ (r.clock.text ++ [' '])))))))))))))

def line (r : Row) : Str := r.kind.letter :: (r.perms ++ (r.flag.toList ++ (r.columns ++ r.shown)))

/-- The columns of the row, as the expression should find them. -/
def cut (r : Row) : Cut where
  kind := r.kind.letter
  perms := r.perms
  gap1 := pad (r.pads .links)
  links := decimal r.links
  gap2 := pad (r.pads .owner)
  owner := r.owner
  gap3 := pad (r.pads .group)
  group := r.group
  gap4 := pad (r.pads .size)
  size := decimal r.size
  gap5 := pad (r.pads .month)
  month := r.month
  gap6 := pad (r.pads .day)
  day := r.day
  gap7 := pad (r.pads .clock)
  clock := r.clock
  gap8 := [' ']
  name := r.shown

/-- The row without its name. -/
def toColumns (r : Row) : Columns := { r with }

theorem cut_eq (r : Row) : r.cut = r.toColumns.cut r.kind.letter r.shown := rfl

end Row

inductive Entry where
  | row (r : Row)
  /-- What is neither a regular file nor a directory nor a symbolic link. -/
  | special (letter : Char) (rest : Str) (other : typeLetter letter = false) (text : '\n' ∉ letter :: rest)

namespace Entry

def line : Entry → Str
  | row r => r.line
  | special letter rest _ _ => letter :: rest

/-- The row that a `File` is due for. -/
def due : Entry → Option Row
  | row r => if r.name = dot ∨ r.name = dotDot then none else some r
  | special .. => none

end Entry

def header (total : Nat) : Str := "total ".toList ++ decimal total

/-- What `ls -la` prints. -/
def reply (total : Nat) (es : List Entry) : Str :=
  header total ++ '\n' :: es.flatMap fun e => e.line ++ ['\n']

/-! ## Its lines -/

namespace Row
variable {r : Row}

theorem shown_ne_nil (r : Row) : r.shown ≠ [] := r.kind.shown_ne_nil r.name_text.2

theorem newline_shown (r : Row) : '\n' ∉ r.shown := RowKind.newline_shown r.name_text.1 r.target_text

theorem newline_line (r : Row) : '\n' ∉ r.line :=
  r.toColumns.newline_line (by cases r.kind <;> simp [RowKind.letter]) r.newline_shown

end Row

theorem Entry.newline_line (e : Entry) : '\n' ∉ e.line := by
  cases e with
  | row r => exact r.newline_line
  | special letter rest other text => exact text

theorem newline_header (total : Nat) : '\n' ∉ header total := by
  intro h
  rcases List.mem_append.1 h with h | h
  · exact absurd h (by decide)
  · exact newline_not_mem_decimal total h

theorem lines_entries (es : List Entry) :
    lines (es.flatMap fun e => e.line ++ ['\n']) = es.map fun e => stripCr e.line := by
  induction es with
  | nil => rfl
  | cons e es ih =>
    rw [List.flatMap_cons, List.append_assoc, List.singleton_append, lines_append _ _ e.newline_line, ih,
      List.map_cons]

theorem lines_reply (total : Nat) (es : List Entry) :
    lines (reply total es) = stripCr (header total) :: es.map fun e => stripCr e.line := by
  rw [reply, lines_append _ _ (newline_header total), lines_entries]

/-! ## Legible rows -/

theorem stripCr_append {a b : Str} (h : b ≠ []) : stripCr (a ++ b) = a ++ stripCr b := by
  unfold stripCr
  rw [List.getLast?_append_of_ne_nil _ h]
  split
  · exact List.dropLast_append_of_ne_nil h
  · rfl

theorem head_stripCr {s : Str} {c : Char} (h : (stripCr s).head? = some c) : s.head? = some c := by
  unfold stripCr at h
  split at h
  · rw [List.head?_dropLast] at h
    split at h
    · exact h
    · cases h
  · exact h

section
variable {K : Classes}

/-- Only the three letters start a cut. -/
theorem no_cut_of_head {line : Str} (h : ∀ c, line.head? = some c → typeLetter c = false) {c : Cut} (hc : c.Valid K) :
    c.text ≠ stripCr line := by
  intro he
  have hhead : (stripCr line).head? = some c.kind := by rw [← he]; rfl
  have hk := h _ (head_stripCr hhead)
  rw [hc.kind] at hk
  cases hk

theorem no_cut_header (total : Nat) {c : Cut} (hc : c.Valid K) : c.text ≠ stripCr (header total) :=
  no_cut_of_head (by intro x hx; cases hx; decide) hc

namespace Row
variable {r : Row}

theorem stripCr_line (r : Row) : stripCr r.line = r.toColumns.line r.kind.letter (stripCr r.shown) := by
  have h : r.line = (r.kind.letter :: (r.perms ++ (r.flag.toList ++ r.columns))) ++ r.shown := by
    simp only [line, List.cons_append, List.append_assoc]
  rw [h, stripCr_append r.shown_ne_nil]
  simp only [List.cons_append, List.append_assoc]
  rfl

/-- No cut of a row has anything but white space behind the permissions. -/
theorem no_cut_of_flag {x : Char} (hflag : r.flag = some x) {c : Cut} (hc : c.Valid K) : c.text ≠ stripCr r.line := by
  rw [stripCr_line]
  exact Columns.no_cut_of_flag (k := r.toColumns) hflag hc

/-- Where the last size, date and further text of the line are, this text (up to the first arrow, for a
link) is the name. -/
def NamedAtLast (K : Classes) (r : Row) : Prop :=
  ∃ c : Cut, c.Valid K ∧ c.text = stripCr r.line ∧ c.LastPlace K ∧ c.Snug ∧
    c.entryName = r.name ∧ c.fileType = r.kind.fileType

/-- **What makes a row legible**: no flag behind the permissions, and its name at the last place. -/
structure Legible (K : Classes) (r : Row) : Prop where
  no_flag : r.flag = none
  at_last : r.NamedAtLast K

theorem newline_stripCr (r : Row) : '\n' ∉ stripCr r.line := fun h => r.newline_line (stripCr_mem h)

theorem Legible.reads (h : r.Legible K) : ∃ c, Reads K (stripCr r.line) c := by
  obtain ⟨c, hc, ht, _⟩ := h.at_last
  exact exists_reads hc ht

/-- The last place is the one that is read. -/
theorem legible_iff {c : Cut} (h : Reads K (stripCr r.line) c) :
    r.Legible K ↔ c.entryName = r.name ∧ c.fileType = r.kind.fileType := by
  constructor
  · intro hl
    obtain ⟨d, hd, ht, hlast, hsnug, hname, htype⟩ := hl.at_last
    rw [← ht] at h
    obtain ⟨hk, hn⟩ := h.name_of_last (ht ▸ r.newline_stripCr) hd hlast hsnug
    have hshown : c.shown = d.shown := by unfold Cut.shown; rw [hk, hn]
    rw [← hname, ← htype]
    unfold Cut.entryName Cut.fileType
    rw [hshown, hk]
    exact ⟨rfl, rfl⟩
  · rintro ⟨hname, htype⟩
    refine ⟨?_, c, h.valid, h.text, h.lastPlace r.newline_stripCr, h.snug, hname, htype⟩
    cases hflag : r.flag with
    | none => rfl
    | some x => exact absurd h.text (no_cut_of_flag hflag h.valid)

theorem cut_valid (hshort : r.clock.Short) : r.cut.Valid K :=
  Columns.cut_valid (k := r.toColumns) hshort r.kind.typeLetter_letter ⟨r.newline_shown, r.shown_ne_nil⟩

theorem cut_text (hflag : r.flag = none) (hcr : r.shown.getLast? ≠ some '\r') : r.cut.text = stripCr r.line := by
  rw [stripCr_line, stripCr, if_neg hcr, cut_eq]
  exact Columns.cut_text (k := r.toColumns) hflag _ _

/-- A row whose own columns are at the last place is legible if its name can be told from the gap before it
and the arrow after it. -/
theorem legible_of_last (hflag : r.flag = none) (hshort : r.clock.Short) (hlast : r.cut.LastPlace K)
    (hhead : ∀ x, r.name.head? = some x → isWhite x = false) (hcr : r.shown.getLast? ≠ some '\r')
    (hname : IsName r.name)
    (harrow : ∀ t, r.kind = .symlink t → splitFirst arrow r.shown = some (r.name, t)) : r.Legible K := by
  have hsnug : r.cut.Snug := by
    refine Or.inl fun x hx => hhead x ?_
    unfold cut shown RowKind.shown at hx
    dsimp only at hx
    split at hx
    · rwa [List.head?_append_of_ne_nil _ hname.1] at hx
    · exact hx
  have hsanitize : sanitize r.name = r.name := by unfold sanitize; rw [fileName_of_name hname]; rfl
  refine ⟨hflag, r.cut, cut_valid hshort, cut_text hflag hcr, hlast, hsnug, ?_, ?_⟩
  · unfold Cut.entryName Cut.shown cut
    cases hk : r.kind with
    | regular => simpa [shown, hk, RowKind.shown, RowKind.letter] using hsanitize
    | directory => simpa [shown, hk, RowKind.shown, RowKind.letter] using hsanitize
    | symlink t =>
      simp only [RowKind.letter, ↓reduceIte, arrowCut, harrow t hk]
      split <;> exact hsanitize
  · unfold Cut.fileType Cut.shown cut
    cases hk : r.kind with
    | regular => simp [RowKind.letter, RowKind.fileType]
    | directory => simp [RowKind.letter, RowKind.fileType]
    | symlink t =>
      simp only [RowKind.letter, ↓reduceIte, arrowCut, harrow t hk]
      split <;> rfl

/-- A row without digits in the last column has its own columns at the last place. -/
theorem lastPlace_of_no_digit (hshort : r.clock.Short) (hdigit : ∀ x ∈ r.shown, K.digit x = false) :
    r.cut.LastPlace K := Cut.lastPlace_of_no_digit (cut_valid hshort) hdigit

end Row
end

/-! ## The loop over the lines -/

/-- `files` are what the lines give, in order; lines that give nothing are skipped. -/
inductive Lists (L : Libs) (dir : PathBuf) : List Str → List File → Prop
  | nil : Lists L dir [] []
  | keep {line : Str} {rest : List Str} {f : File} {files : List File} (year : Int) :
      parseLsOutput L year dir line = .ok f → Lists L dir rest files → Lists L dir (line :: rest) (f :: files)
  | skip {line : Str} {rest : List Str} {files : List File} (year : Int) :
      parseLsOutput L year dir line = .err () → Lists L dir rest files → Lists L dir (line :: rest) files

section
variable {σ : Type} {L : Libs} {dir : PathBuf} {H : Handler Ssh σ}

theorem parseLine_run (L : Libs) (dir : PathBuf) (line : Str) (st : St Ssh ScpFs σ) :
    ∃ year st', (∃ f, parseLsOutput L year dir line = .ok f ∧
        ScpFs.parseLine L dir line H st = (.ok (.ok f), st')) ∨
      (parseLsOutput L year dir line = .err () ∧ ScpFs.parseLine L dir line H st = (.ok (.error ()), st')) := by
  rcases parseLsOutput_cases L (H.reply .utcYear st.env).1 dir line with ⟨f, h⟩ | h
  · obtain ⟨st', hrun⟩ := ScpFs.parseLine_ok h
    exact ⟨_, st', Or.inl ⟨f, h, hrun⟩⟩
  · obtain ⟨st', hrun⟩ := ScpFs.parseLine_err h
    exact ⟨_, st', Or.inr ⟨h, hrun⟩⟩

theorem listLines_run (L : Libs) (dir : PathBuf) (ls : List Str) (st : St Ssh ScpFs σ) :
    ∃ files st', ScpFs.listLines L dir ls H st = (.ok files, st') ∧ Lists L dir ls files := by
  induction ls generalizing st with
  | nil => exact ⟨[], st, rfl, .nil⟩
  | cons line rest ih =>
    unfold ScpFs.listLines
    obtain ⟨year, st₁, ⟨f, hparse, hrun⟩ | ⟨hparse, hrun⟩⟩ := parseLine_run (H := H) L dir line st
    · obtain ⟨files, st₂, hrest, hlists⟩ := ih st₁
      refine ⟨f :: files, st₂, ?_, .keep year hparse hlists⟩
      rw [bind_run, hrun]
      simp only [bind_run, hrest, pure_run]
    · obtain ⟨files, st₂, hrest, hlists⟩ := ih st₁
      refine ⟨files, st₂, ?_, .skip year hparse hlists⟩
      rw [bind_run, hrun]
      exact hrest

end

/-! ## Entries and files -/

section
variable {L : Libs} {dir : PathBuf}

/-- `f` is the `File` of the entry in row `r`. -/
def Shows (dir : PathBuf) (r : Row) (f : File) : Prop :=
  f.path = push dir r.name ∧ f.metadata.fileType = r.kind.fileType

/-- A path below `dir` has the name that was pushed. -/
theorem sanitize_of_push {s n : Str} (hdir : isAbsolute dir = true) (hn : IsName n)
    (h : push dir (sanitize s) = push dir n) : sanitize s = n := by
  have hfile : fileName (push dir n) = some n := by
    rw [fileName_eq_some, components_push_name hdir hn, List.getLast?_concat]
  have habs : isAbsolute (sanitize s) = false := by
    by_contra hno
    rw [Bool.not_eq_false] at hno
    -- an absolute name is what `push` leaves, and `sanitize` keeps it only when it has no last component
    have hpush : push dir (sanitize s) = sanitize s := by unfold push; rw [if_pos hno]
    cases hs : fileName s with
    | some m =>
      have hm := isName_of_fileName hs
      rw [sanitize, hs, Option.getD_some, not_absolute_of_slash hm.2.1] at hno
      cases hno
    | none =>
      have hraw : sanitize s = s := by rw [sanitize, hs]; rfl
      rw [← h, hpush, hraw, hs] at hfile
      cases hfile
  exact push_inj habs (not_absolute_of_slash hn.2.1) h

/-- What a row that a `File` is due for gives. -/
theorem Row.parse_row {r : Row} (hdir : isAbsolute dir = true) (hname : IsName r.name) (year : Int) :
    (∀ f, parseLsOutput L year dir (stripCr r.line) = .ok f → (Shows dir r f ↔ r.Legible L.classes)) ∧
      (parseLsOutput L year dir (stripCr r.line) = .err () → ¬ r.Legible L.classes) := by
  constructor
  · intro f hf
    obtain ⟨c, hc, rfl, _⟩ := reads_of_parse hf
    rw [Row.legible_iff hc]
    constructor
    · rintro ⟨hpath, htype⟩
      exact ⟨sanitize_of_push hdir hname hpath, htype⟩
    · rintro ⟨hentry, htype⟩
      exact ⟨by simp only [Cut.file, hentry], htype⟩
  · intro herr hl
    obtain ⟨c, hc⟩ := hl.reads
    obtain ⟨hentry, _⟩ := (Row.legible_iff hc).1 hl
    rw [parseLsOutput_of_reads hc, hentry, if_neg (not_or.2 hname.2.2)] at herr
    cases herr

/-- `.` and `..` give nothing. -/
theorem Row.parse_dots {r : Row} (hdots : r.name = dot ∨ r.name = dotDot) (year : Int) :
    parseLsOutput L year dir (stripCr r.line) = .err () := by
  obtain ⟨hkind, hshort⟩ := r.dots hdots
  have hshown : r.shown = r.name := by unfold Row.shown; rw [hkind]; rfl
  cases hflag : r.flag with
  | some x => exact parseLsOutput_of_no_cut fun c hc => Row.no_cut_of_flag hflag hc
  | none =>
    have hchars : ∀ x ∈ r.name, x = '.' := by rcases hdots with h | h <;> rw [h] <;> simp [dot, dotDot]
    have hdot : L.classes.digit '.' = false := by rw [L.classes.digit_ascii _ (by decide)]; rfl
    have hlast : r.cut.LastPlace L.classes :=
      Row.lastPlace_of_no_digit hshort fun x hx => by rw [hchars x (hshown ▸ hx)]; exact hdot
    have hcr : r.shown.getLast? ≠ some '\r' := by rcases hdots with h | h <;> rw [hshown, h] <;> decide
    have htext := Row.cut_text hflag hcr
    have hvalid := Row.cut_valid (K := L.classes) hshort
    have hsnug : r.cut.Snug := by
      refine Or.inl fun x hx => ?_
      rw [hchars x (hshown ▸ List.mem_of_mem_head? hx)]
      decide
    obtain ⟨c, hc⟩ := exists_reads hvalid htext
    obtain ⟨hk, hn⟩ := (htext ▸ hc).name_of_last (htext ▸ r.newline_stripCr) hvalid hlast hsnug
    have hentry : c.entryName = r.name := by
      unfold Cut.entryName Cut.shown
      rw [hk, hn]
      simp only [Row.cut, hkind, RowKind.letter, hshown]
      rcases hdots with h | h <;> rw [h] <;> decide
    rw [parseLsOutput_of_reads hc, hentry, if_pos hdots]

theorem Entry.due_row (r : Row) : (row r).due = if r.name = dot ∨ r.name = dotDot then none else some r := rfl

theorem Entry.due_eq_some {e : Entry} {r : Row} (h : e.due = some r) : e = .row r ∧ IsName r.name := by
  cases e with
  | special letter rest other text => cases h
  | row q =>
    rw [due_row, Option.ite_none_left_eq_some, Option.some.injEq, not_or] at h
    obtain ⟨hdots, rfl⟩ := h
    exact ⟨rfl, q.name_text.2, q.name_component, hdots⟩

/-- A line that no `File` is due for gives none. -/
theorem Entry.parse_none {e : Entry} (h : e.due = none) (year : Int) :
    parseLsOutput L year dir (stripCr e.line) = .err () := by
  cases e with
  | special letter rest other text =>
    exact parseLsOutput_of_no_cut fun c hc => no_cut_of_head (by intro x hx; cases hx; exact other) hc
  | row r =>
    rw [due_row, ite_eq_left_iff] at h
    refine Row.parse_dots ?_ year
    by_contra hdots
    exact absurd (h hdots) (by simp)

theorem Lists.length_le {es : List Entry} {files : List File}
    (h : Lists L dir (es.map fun e => stripCr e.line) files) : files.length ≤ (es.filterMap Entry.due).length := by
  induction es generalizing files with
  | nil => cases h; simp
  | cons e es ih =>
    cases hdue : e.due with
    | none =>
      rw [List.filterMap_cons_none hdue]
      cases h with
      | keep year hparse _ => rw [Entry.parse_none hdue] at hparse; cases hparse
      | skip year _ hrest => exact ih hrest
    | some r =>
      rw [List.filterMap_cons_some hdue, List.length_cons]
      cases h with
      | keep year _ hrest => rw [List.length_cons]; exact Nat.succ_le_succ (ih hrest)
      | skip year _ hrest => exact Nat.le_succ_of_le (ih hrest)

/-- The files are those of the due rows, one for each and in order, exactly when every due row is legible. -/
theorem Lists.shows_iff (hdir : isAbsolute dir = true) {es : List Entry} {files : List File}
    (h : Lists L dir (es.map fun e => stripCr e.line) files) :
    List.Forall₂ (Shows dir) (es.filterMap Entry.due) files ↔
      ∀ r ∈ es.filterMap Entry.due, r.Legible L.classes := by
  induction es generalizing files with
  | nil => cases h; simp
  | cons e es ih =>
    cases hdue : e.due with
    | none =>
      rw [List.filterMap_cons_none hdue]
      cases h with
      | keep year hparse _ => rw [Entry.parse_none hdue] at hparse; cases hparse
      | skip year _ hrest => exact ih hrest
    | some r =>
      rw [List.filterMap_cons_some hdue, List.forall_mem_cons]
      obtain ⟨rfl, hname⟩ := Entry.due_eq_some hdue
      cases h with
      | keep year hparse hrest =>
        rw [List.forall₂_cons, ih hrest, (Row.parse_row hdir hname year).1 _ hparse]
      | skip year herr hrest =>
        have hno := (Row.parse_row hdir hname year).2 herr
        constructor
        · intro hall
          -- one file too few
          have h1 := hall.length_eq
          have h2 := hrest.length_le
          rw [List.length_cons] at h1
          omega
        · rintro ⟨hl, _⟩
          exact absurd hl hno

end

/-! ## `list_dir` -/

section
variable {σ : Type} {L : Libs} {H : Handler Ssh σ}

/-- **`list_dir` returns one `File` for each row that one is due for, in order and nothing else, exactly when
all these rows are legible.** -/
theorem listDir_shows_iff {st st₁ st₂ st₃ : St Ssh ScpFs σ} {path : PathBuf} {session : SshSession} {total : Nat}
    {es : List Entry} (hwrkdir : isAbsolute st.self.wrkdir = true)
    (hconn : ScpFs.checkConnection H st = (.ok (), st₁))
    (hexists : ScpFs.existsOrFalse (absolutize st.self.wrkdir path) H st₁ = (.ok true, st₂))
    (hsession : st.self.session = some session)
    (hreply : performShellCmd session (ShellCmd.listDir (absolutize st.self.wrkdir path)).text H st₂ =
      (.ok (reply total es), st₃)) :
    ∃ files st', ScpFs.listDir L path H st = (.ok files, st') ∧
      (List.Forall₂ (Shows (absolutize st.self.wrkdir path)) (es.filterMap Entry.due) files ↔
        ∀ r ∈ es.filterMap Entry.due, r.Legible L.classes) := by
  obtain ⟨files, st', hrun, hlists⟩ := listLines_run (H := H) L (absolutize st.self.wrkdir path)
    (lines (reply total es)) st₃
  have hself₁ : st₁.self = st.self := by
    have h := ScpFs.checkConnection_self (H := H) st
    rwa [hconn] at h
  have hself₂ : st₂.self = st₁.self := by
    have h := ScpFs.existsOrFalse_self (H := H) (absolutize st.self.wrkdir path) st₁
    rwa [hexists] at h
  refine ⟨files, st', ?_, ?_⟩
  · have hattempt : (attempt (performShellCmd session (ShellCmd.listDir (absolutize st.self.wrkdir path)).text) :
        Remote ScpFs σ (Except RemoteError Str)) H st₂ = (.ok (.ok (reply total es)), st₃) := by
      unfold attempt
      rw [hreply]
    unfold ScpFs.listDir
    rw [bind_run, hconn]
    simp only [bind_run, self_run, hself₁, hexists]
    simp only [↓reduceIte, bind_run, self_run, hself₂, hself₁, hsession, unwrap_run, hattempt, hrun]
  · rw [lines_reply] at hlists
    cases hlists with
    | keep year hparse _ =>
      rw [parseLsOutput_of_no_cut fun c hc => no_cut_header total hc] at hparse
      cases hparse
    | skip year _ hrest => exact hrest.shows_iff (isAbsolute_absolutize hwrkdir path)

end

/-- A file of one byte, with or without a flag behind its permissions. -/
def sampleRow (flag : Option Char) (printed : ∀ c, flag = some c → isWhite c = false) : Row where
  kind := .regular
  perms := "rw-r--r--".toList
  flag := flag
  links := 1
  owner := ['r']
  group := ['r']
  size := 1
  month := "Jan".toList
  day := "01".toList
  clock := .year "2020".toList
  pads := fun _ => 0
  name := ['a']
  perms_letters := ⟨rfl, List.all_eq_true.1 (by decide)⟩
  flag_printed := printed
  owner_text := ⟨by decide, by decide⟩
  group_text := ⟨by decide, by decide⟩
  month_letters := ⟨rfl, List.all_eq_true.1 (by decide)⟩
  day_digits := ⟨List.all_eq_true.1 (by decide), by decide, by decide⟩
  clock_printed := ⟨List.all_eq_true.1 (by decide), by decide⟩
  name_text := ⟨by decide, by decide⟩
  name_component := by decide
  target_text := fun t h => by cases h
  dots := by rintro (h | h) <;> exact absurd h (by decide)

def plainRow : Row := sampleRow none fun _ h => by cases h

/-- On a system with security labels the flag is a dot. -/
def labelledRow : Row := sampleRow (some '.') fun _ h => by cases h; decide

/-- A server on which `/srv` exists and holds `es`. -/
def listingServer (es : List Entry) : Handler Ssh Str :=
  shellServer fun cmd => if cmd = (ShellCmd.existsPath "/srv".toList).line then "0\n".toList else reply 1 es

def listingClient : St Ssh ScpFs Str := ⟨⟨some ⟨0⟩, "/srv".toList, SshOpts.new "h".toList⟩, [], []⟩

theorem listDir_shows_plain : ∃ files st',
    ScpFs.listDir sampleLibs "/srv".toList (listingServer [.row plainRow]) listingClient = (.ok files, st') ∧
      List.Forall₂ (Shows "/srv".toList) [plainRow] files := by
  have hlegible : plainRow.Legible Classes.ascii :=
    Row.legible_of_last rfl rfl (Row.lastPlace_of_no_digit rfl
      (by intro x hx; cases hx with | head => rfl | tail _ h => cases h))
      (by intro x hx; cases hx; decide)
      (by decide) ⟨by decide, by decide, by decide, by decide⟩ (fun t h => by cases h)
  obtain ⟨files, st', hrun, hiff⟩ := @listDir_shows_iff Str sampleLibs (listingServer [.row plainRow]) listingClient
    _ _ _ "/srv".toList ⟨0⟩ 1 [.row plainRow] rfl rfl rfl rfl rfl
  exact ⟨files, st', hrun, hiff.2 (by intro r hr; cases hr with | head => exact hlegible | tail _ h => cases h)⟩

/-- A file with a security label is missing from the listing. -/
theorem listDir_drops_labelled :
    (ScpFs.listDir sampleLibs "/srv".toList (listingServer [.row labelledRow]) listingClient).1 = .ok [] ∧
      ¬ List.Forall₂ (Shows "/srv".toList) ([Entry.row labelledRow].filterMap Entry.due) [] := by
  refine ⟨by decide +kernel, ?_⟩
  intro h
  cases h

end RemotefsSsh
