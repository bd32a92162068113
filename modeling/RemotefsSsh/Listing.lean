import RemotefsSsh.Asking
import RemotefsSsh.Servers

/-!
# What a listing shows (ssh/scp.rs:61-185, :302-334)

Two results about a line that comes back from `ls`:

* where a `File` made from it can lie (`parseLsOutput_below_iff`);
* two names behind the same columns are given the same metadata when neither brings columns of its own
  (`metadata_agree_of_last`), and behind any columns there is a name that brings the size of one's choice
  (`every_size_forged`).

Both turn on the same point: the columns are found from the whole line, so the text of a name
decides where they are (`Reads`).
-/

namespace RemotefsSsh

open Utf8 UnixPath Backtrack Effect Prog

variable {L : Libs} {thisYear : Int} {dir : PathBuf} {line : Str}

/-! ## One line, in the year of the clock -/

namespace ScpFs

variable {σ : Type} {H : Handler Ssh σ} {st : St Ssh ScpFs σ}

theorem parseLine_ok {f : File} (h : parseLsOutput L (H.reply .utcYear st.env).1 dir line = .ok f) :
    ∃ st', parseLine L dir line H st = (.ok (.ok f), st') := by
  unfold parseLine
  rw [bind_ok (ask_run .utcYear st)]
  exact ⟨_, attempt_ok (by rw [ofOut_run, h])⟩

theorem parseLine_err (h : parseLsOutput L (H.reply .utcYear st.env).1 dir line = .err ()) :
    ∃ st', parseLine L dir line H st = (.ok (.error ()), st') := by
  unfold parseLine
  rw [bind_ok (ask_run .utcYear st)]
  exact ⟨_, attempt_err (by rw [ofOut_run, h])⟩

end ScpFs

/-! ## A listing stays in its directory -/

/-- `path` is `dir` extended by one normal component, and `dir` is its parent. -/
def OneBelow (dir path : PathBuf) : Prop :=
  (∃ n, IsName n ∧ components path = components dir ++ [.normal n]) ∧
    ∃ q, parent path = some q ∧ components q = components dir

theorem oneBelow_push {n : Str} (hdir : isAbsolute dir = true) (hn : IsName n) : OneBelow dir (push dir n) :=
  ⟨⟨n, hn, components_push_name hdir hn⟩, parent_push_name hdir hn⟩

/-- **The `File` of a line lies one below its directory exactly when the name that is shown has a last component, or
is `.` or `..`.** -/
theorem parseLsOutput_below_iff (hdir : isAbsolute dir = true) :
    (∀ f, parseLsOutput L thisYear dir line = .ok f → OneBelow dir f.path) ↔
      ∀ c, Reads L.classes line c →
        (∃ n, fileName c.shown.1 = some n) ∨ c.shown.1 = dot ∨ c.shown.1 = dotDot := by
  constructor
  · intro h c hc
    by_contra hno
    simp only [not_or, not_exists] at hno
    obtain ⟨hnone, hdot, hdotdot⟩ := hno
    have hname : c.entryName = c.shown.1 := by
      unfold Cut.entryName sanitize
      rw [Option.eq_none_iff_forall_not_mem.2 fun n => hnone n]
      rfl
    have hparse : parseLsOutput L thisYear dir line = .ok (c.file L thisYear dir) := by
      rw [parseLsOutput_of_reads hc, hname, if_neg (not_or.2 ⟨hdot, hdotdot⟩)]
    obtain ⟨⟨n, _, hn⟩, _⟩ := h _ hparse
    simp only [Cut.file, hname] at hn
    exact hnone n (fileName_of_components_push hdir hn)
  · intro h f hf
    obtain ⟨c, hc, rfl, hdot, hdotdot⟩ := reads_of_parse hf
    have hbare : ∀ s, s = dot ∨ s = dotDot → sanitize s = s := by rintro s (rfl | rfl) <;> decide
    rcases h c hc with ⟨n, hn⟩ | hd
    · have he : c.entryName = n := by unfold Cut.entryName sanitize; rw [hn]; rfl
      simp only [Cut.file, he]
      exact oneBelow_push hdir (isName_of_fileName hn)
    · have he : c.entryName = c.shown.1 := hbare _ hd
      rw [he] at hdot hdotdot
      rcases hd with hd | hd
      · exact absurd hd hdot
      · exact absurd hd hdotdot

/-- Libraries that know two dates. -/
def sampleLibs : Libs where
  classes := Classes.ascii
  chrono :=
    { naiveDate := fun s _ =>
        if s = "Jan 01 2020".toList then some 1577836800
        else if s = "Feb 02 2021".toList then some 1612224000
        else none
      naiveDateTime := fun _ _ => none
      formatUtc := fun _ _ => none }

/-- What a line for a plain file of one byte gives. -/
def plainEntry (n : Str) : File where
  path := "/srv/".toList ++ n
  metadata :=
    { accessed := none, created := none, fileType := .file, gid := none, mode := some (modeOf "rw-r--r--".toList),
      modified := SystemTime.UNIX_EPOCH.checkedAddSecs 1577836800, size := 1, symlink := none, uid := none }

set_option maxRecDepth 20000 in
theorem parseLsOutput_below_plain :
    parseLsOutput sampleLibs 2024 "/srv".toList "-rw-r--r-- 1 r r 1 Jan 01 2020 a".toList = .ok (plainEntry ['a']) ∧
      OneBelow "/srv".toList (plainEntry ['a']).path := by
  have hparse : parseLsOutput sampleLibs 2024 "/srv".toList "-rw-r--r-- 1 r r 1 Jan 01 2020 a".toList =
      .ok (plainEntry ['a']) := by decide +kernel
  refine ⟨hparse, (parseLsOutput_below_iff (by decide)).2 (fun c hc => Or.inl ⟨"a".toList, ?_⟩) _ hparse⟩
  have hkind : some [c.kind] = some ['-'] := (hc.group 1).symm.trans (by decide +kernel)
  have hname : some c.name = some "a".toList := (hc.group 8).symm.trans (by decide +kernel)
  have hk : c.kind = '-' := by simpa using hkind
  rw [Cut.shown, if_neg (by rw [hk]; decide), Option.some.inj hname]
  decide

/-- What a line that names the root gives. -/
def rootEntry : File where
  path := ['/']
  metadata :=
    { accessed := none, created := none, fileType := .directory, gid := none, mode := some (modeOf "rwxr-xr-x".toList),
      modified := SystemTime.UNIX_EPOCH.checkedAddSecs 1577836800, size := 1, symlink := none, uid := none }

set_option maxRecDepth 20000 in
/-- A name without a last component replaces the directory. -/
theorem parseLsOutput_escapes :
    parseLsOutput sampleLibs 2024 "/srv".toList "drwxr-xr-x 2 r r 1 Jan 01 2020 /".toList = .ok rootEntry ∧
      ¬ OneBelow "/srv".toList rootEntry.path := by
  refine ⟨by decide +kernel, ?_⟩
  rintro ⟨⟨n, _, h⟩, _⟩
  have hroot : (components rootEntry.path).length = 1 := by decide
  have hsrv : (components "/srv".toList).length = 2 := by decide
  rw [h, List.length_append, hsrv] at hroot
  simp at hroot

/-! ## Names that forge the other columns -/

/-- The columns of `d` in front of another name. -/
def Cut.named (d : Cut) (n : Str) : Cut := { d with name := n }

/-- The columns of the two cuts have the same values. -/
structure SameColumns (L : Libs) (thisYear : Int) (c₁ c₂ : Cut) : Prop where
  owner : parseU32 c₁.owner = parseU32 c₂.owner
  group : parseU32 c₁.group = parseU32 c₂.group
  size : (c₁.metadata L thisYear).size = (c₂.metadata L thisYear).size
  date : (c₁.metadata L thisYear).modified = (c₂.metadata L thisYear).modified

theorem Cut.named_kind {K : Classes} {d c : Cut} {n : Str} (hd : d.Valid K) (hc : Reads K (d.named n).text c) :
    c.kind = d.kind ∧ c.perms = d.perms := by
  have h := hc.text
  simp only [Cut.named, Cut.text, Cut.before, List.cons_append, List.append_assoc, List.cons.injEq] at h
  exact ⟨h.1, (List.append_inj h.2 (by rw [hc.valid.perms.1, hd.perms.1])).1⟩

/-- Names that bring no second place for the columns leave them alone. -/
theorem Cut.sameColumns {d : Cut} (hd : d.Valid L.classes) {n₁ n₂ : Str} (hn₁ : Txt n₁) (hn₂ : Txt n₂)
    (hline₁ : '\n' ∉ (d.named n₁).text) (hline₂ : '\n' ∉ (d.named n₂).text)
    (hl₁ : (d.named n₁).LastPlace L.classes) (hl₂ : (d.named n₂).LastPlace L.classes) {c₁ c₂ : Cut}
    (hc₁ : Reads L.classes (d.named n₁).text c₁) (hc₂ : Reads L.classes (d.named n₂).text c₂) :
    SameColumns L thisYear c₁ c₂ := by
  have hd₁ : (d.named n₁).Valid L.classes := { hd with name := hn₁ }
  have hd₂ : (d.named n₂).Valid L.classes := { hd with name := hn₂ }
  obtain ⟨hsize₁, hdate₁, _⟩ := hc₁.at_last hline₁ hd₁ hl₁
  obtain ⟨hsize₂, hdate₂, _⟩ := hc₂.at_last hline₂ hd₂ hl₂
  obtain ⟨_, _, howner, hgroup⟩ := hc₁.agree hc₂ hline₁ hline₂ hd₁ hd₂ hl₁ hl₂ rfl
  have hsize : c₁.size = c₂.size := hsize₁.trans hsize₂.symm
  have hdate : c₁.date = c₂.date := hdate₁.trans hdate₂.symm
  exact ⟨by rw [howner], by rw [hgroup], by simp only [Cut.metadata, hsize], by simp only [Cut.metadata, hdate]⟩

/-- **Two names behind the same columns are given the same metadata when neither brings a size, a date and further
text of its own.** -/
theorem metadata_agree_of_last {d : Cut} (hd : d.Valid L.classes) (hkind : d.kind ≠ 'l') {n₁ n₂ : Str} {f₁ f₂ : File}
    (hn₁ : Txt n₁) (hn₂ : Txt n₂) (hline₁ : '\n' ∉ (d.named n₁).text) (hline₂ : '\n' ∉ (d.named n₂).text)
    (h₁ : parseLsOutput L thisYear dir (d.named n₁).text = .ok f₁)
    (h₂ : parseLsOutput L thisYear dir (d.named n₂).text = .ok f₂)
    (hl₁ : (d.named n₁).LastPlace L.classes) (hl₂ : (d.named n₂).LastPlace L.classes) :
    f₁.metadata.size = f₂.metadata.size ∧ f₁.metadata.modified = f₂.metadata.modified ∧
      f₁.metadata.mode = f₂.metadata.mode ∧ f₁.metadata.uid = f₂.metadata.uid ∧
      f₁.metadata.gid = f₂.metadata.gid ∧ f₁.metadata.fileType = f₂.metadata.fileType := by
  obtain ⟨c₁, hc₁, rfl, _⟩ := reads_of_parse h₁
  obtain ⟨c₂, hc₂, rfl, _⟩ := reads_of_parse h₂
  have hsame : SameColumns L thisYear c₁ c₂ := Cut.sameColumns hd hn₁ hn₂ hline₁ hline₂ hl₁ hl₂ hc₁ hc₂
  obtain ⟨hk₁, hp₁⟩ := Cut.named_kind hd hc₁
  obtain ⟨hk₂, hp₂⟩ := Cut.named_kind hd hc₂
  refine ⟨hsame.size, hsame.date, ?_, hsame.owner, hsame.group, ?_⟩
  · simp only [Cut.file, Cut.metadata, hp₁, hp₂]
  · simp only [Cut.file, Cut.metadata, Cut.fileType, Cut.shown, hk₁, hk₂, hkind, ↓reduceIte]

/-- The columns `-rw-r--r-- 1 r r 1 Jan 01 2020 `. -/
def plainColumns : Cut where
  kind := '-'
  perms := "rw-r--r--".toList
  gap1 := [' ']
  links := ['1']
  gap2 := [' ']
  owner := ['r']
  gap3 := [' ']
  group := ['r']
  gap4 := [' ']
  size := ['1']
  gap5 := [' ']
  month := "Jan".toList
  gap6 := [' ']
  day := "01".toList
  gap7 := [' ']
  clock := .year "2020".toList
  gap8 := [' ']
  name := ['a']

theorem plainColumns_valid : plainColumns.Valid Classes.ascii := by
  have hdigits : ∀ s : Str, s.all Char.isDigit = true → ∀ c ∈ s, Classes.ascii.digit c = true :=
    fun s hs => List.all_eq_true.1 hs
  exact
    { kind := rfl
      perms := ⟨rfl, List.all_eq_true.1 (by decide)⟩
      gap1 := gap_space
      links := ⟨hdigits ['1'] (by decide), by decide⟩
      gap2 := gap_space
      owner := ⟨by decide, by decide⟩
      gap3 := gap_space
      group := ⟨by decide, by decide⟩
      gap4 := gap_space
      size := ⟨hdigits ['1'] (by decide), by decide⟩
      gap5 := gap_space
      month := ⟨rfl, List.all_eq_true.1 (by decide)⟩
      gap6 := gap_space
      day := ⟨hdigits "01".toList (by decide), by decide, by decide⟩
      gap7 := gap_space
      clock := ⟨hdigits "2020".toList (by decide), by decide, by decide⟩
      gap8 := gap_space
      name := ⟨by decide, by decide⟩ }

set_option maxRecDepth 20000 in
theorem metadata_agree_plain :
    (plainEntry ['a']).metadata.size = (plainEntry ['b']).metadata.size ∧
      (plainEntry ['a']).metadata.modified = (plainEntry ['b']).metadata.modified ∧
      (plainEntry ['a']).metadata.mode = (plainEntry ['b']).metadata.mode ∧
      (plainEntry ['a']).metadata.uid = (plainEntry ['b']).metadata.uid ∧
      (plainEntry ['a']).metadata.gid = (plainEntry ['b']).metadata.gid ∧
      (plainEntry ['a']).metadata.fileType = (plainEntry ['b']).metadata.fileType := by
  have ha : parseLsOutput sampleLibs 2024 "/srv".toList (plainColumns.named ['a']).text = .ok (plainEntry ['a']) := by
    decide +kernel
  have hb : parseLsOutput sampleLibs 2024 "/srv".toList (plainColumns.named ['b']).text = .ok (plainEntry ['b']) := by
    decide +kernel
  have hlast : ∀ n : Char, n.isDigit = false → n ≠ '\n' → (plainColumns.named [n]).LastPlace Classes.ascii := by
    intro n hn hn'
    refine Cut.lastPlace_of_no_digit { plainColumns_valid with name := ⟨?_, by simp [Cut.named]⟩ } ?_
    · simpa [Cut.named] using hn'.symm
    · simpa [Cut.named, Classes.ascii] using hn
  exact metadata_agree_of_last plainColumns_valid (by decide) ⟨by decide, by decide⟩ ⟨by decide, by decide⟩ (by decide)
    (by decide) ha hb (hlast _ (by decide) (by decide)) (hlast _ (by decide) (by decide))

/-- What a line for `5 Feb 02 2021 a` gives. -/
def forgedEntry : File where
  path := "/srv/a".toList
  metadata :=
    { accessed := none, created := none, fileType := .file, gid := some 2020, mode := some (modeOf "rw-r--r--".toList),
      modified := SystemTime.UNIX_EPOCH.checkedAddSecs 1612224000, size := 5, symlink := none, uid := none }

set_option maxRecDepth 20000 in
/-- A size and a date in a name take the place of the real ones. -/
theorem metadata_forged :
    parseLsOutput sampleLibs 2024 "/srv".toList (plainColumns.named "a".toList).text = .ok (plainEntry ['a']) ∧
      parseLsOutput sampleLibs 2024 "/srv".toList (plainColumns.named "5 Feb 02 2021 a".toList).text =
        .ok forgedEntry ∧
      (plainEntry ['a']).metadata.size ≠ forgedEntry.metadata.size := by
  refine ⟨?_, ?_, ?_⟩ <;> decide +kernel

/-- The columns of `d`, with the name `v Jan 01 2020 x` behind them read as columns. -/
def Cut.forge (d : Cut) (v : Str) : Cut where
  kind := d.kind
  perms := d.perms
  gap1 := d.gap1
  links := d.links
  gap2 := d.gap2
  owner := d.owner
  gap3 := d.gap3
  group := d.group ++ d.gap4 ++ d.size ++ d.gap5 ++ d.date
  gap4 := d.gap8
  size := v
  gap5 := [' ']
  month := "Jan".toList
  gap6 := [' ']
  day := "01".toList
  gap7 := [' ']
  clock := .year "2020".toList
  gap8 := [' ']
  name := ['x']

theorem Cut.forge_text (d : Cut) (v : Str) : (d.forge v).text = (d.named (v ++ " Jan 01 2020 x".toList)).text := by
  simp [Cut.forge, Cut.named, Cut.text, Cut.before, Cut.after, Cut.date, Clock.text]

theorem Cut.forge_valid {K : Classes} {d : Cut} {v : Str} (hd : d.Valid K) (hv : Number K v)
    (hn : '\n' ∉ (d.named v).text) : (d.forge v).Valid K := by
  have hdigit : ∀ s : Str, s.all Char.isDigit = true → ∀ c ∈ s, K.digit c = true := fun s hs c hc =>
    K.digit_of_isDigit (List.all_eq_true.1 hs c hc)
  have hmonth : ∀ c ∈ "Jan".toList, K.word c = true := fun c hc =>
    K.word_of_isAlphanum (List.all_eq_true.1 (by decide : "Jan".toList.all Char.isAlphanum = true) c hc)
  refine
    { kind := hd.kind, perms := hd.perms, gap1 := hd.gap1, links := hd.links, gap2 := hd.gap2, owner := hd.owner,
      gap3 := hd.gap3, group := ⟨fun h => hn ?_, ?_⟩, gap4 := hd.gap8, size := hv, gap5 := gap_space,
      month := ⟨rfl, hmonth⟩, gap6 := gap_space, day := ⟨hdigit "01".toList (by decide), Nat.le_succ 1, Nat.le_refl 2⟩,
      gap7 := gap_space, clock := ⟨hdigit "2020".toList (by decide), Nat.le_refl 4, Nat.le_refl 4⟩, gap8 := gap_space,
      name := ⟨by simp [Cut.forge], by simp [Cut.forge]⟩ }
  · simp only [Cut.forge, Cut.named, Cut.text, Cut.before, Cut.after, List.mem_append, List.mem_cons] at h ⊢
    tauto
  · simp [Cut.forge, hd.group.2]

/-- **Behind any columns there is, for every size, a name that is given this size.** -/
theorem every_size_forged {d : Cut} (hd : d.Valid L.classes) (hkind : d.kind ≠ 'l')
    (hn : ∀ n, '\n' ∉ n → '\n' ∉ (d.named n).text) (v : UInt64) :
    ∃ f, parseLsOutput L thisYear dir (d.named (decimal v.toNat ++ " Jan 01 2020 x".toList)).text = .ok f ∧
      f.metadata.size = v := by
  have hv := Cut.forge_valid hd (number_decimal _ v.toNat) (hn _ (newline_not_mem_decimal _))
  have hlast : (d.forge (decimal v.toNat)).LastPlace L.classes := by
    refine Cut.lastPlace_of_no_digit hv fun x hx => ?_
    obtain rfl : x = 'x' := by simpa [Cut.forge] using hx
    rw [L.classes.digit_ascii _ (by decide)]
    rfl
  have hline : '\n' ∉ (d.forge (decimal v.toNat)).text := by
    rw [Cut.forge_text]
    refine hn _ fun h => ?_
    rcases List.mem_append.1 h with h | h
    · exact newline_not_mem_decimal _ h
    · exact absurd h (by decide)
  obtain ⟨c, hc⟩ := exists_reads hv rfl
  have hsize := (hc.at_last hline hv hlast).1
  obtain ⟨hk, hx⟩ := hc.name_of_last hline hv hlast (Or.inr rfl)
  have hentry : c.entryName = ['x'] := by
    unfold Cut.entryName Cut.shown
    rw [hk, if_neg (show (d.forge _).kind ≠ 'l' from hkind), hx]
    show sanitize ['x'] = ['x']
    decide
  rw [← Cut.forge_text]
  refine ⟨c.file L thisYear dir, ?_, ?_⟩
  · rw [parseLsOutput_of_reads hc, hentry, if_neg (by decide)]
  · simp only [Cut.file, Cut.metadata, hsize, Cut.forge, parseU64_decimal, Option.getD_some]

end RemotefsSsh
