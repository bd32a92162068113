import RemotefsSsh.Hosts
import RemotefsSsh.ListDir

/-!
# A remote tree as the shell shows it

A `Tree` says what each path is by itself (`lstat`) and what it leads to (`stat`). On a machine that
`ShowsTree`, `test` answers from the tree, and `ls` of one path prints a line in the long format for
what the path is. `ScpFs::stat` reads that line, so it succeeds when the line is `Readable`.
-/

namespace RemotefsSsh

open Utf8 UnixPath Effect Prog

/-! ## Trees -/

/-- What a path is. A special file is neither a regular file nor a directory nor a symbolic link. -/
inductive Object where
  | row (kind : RowKind) (size : Nat)
  | special (letter : Char) (other : typeLetter letter = false ∧ isWhite letter = false)
deriving DecidableEq

def Object.isDir : Object → Bool
  | row .directory _ => true
  | _ => false

def Object.isLink : Object → Bool
  | row (.symlink _) _ => true
  | _ => false

structure Tree where
  lstat : PathBuf → Option Object
  stat : PathBuf → Option Object
  stat_absent : ∀ p, lstat p = none → stat p = none
  stat_self : ∀ p o, lstat p = some o → o.isLink = false → stat p = some o
  stat_end : ∀ p o, stat p = some o → o.isLink = false

namespace Tree

def isDir (t : Tree) (p : PathBuf) : Bool := (t.stat p).any Object.isDir

/-- The command that `ScpFs::stat` runs. -/
def lsCmd (t : Tree) (p : PathBuf) : ShellCmd := if t.isDir p then .statDir p else .statFile p

end Tree

/-- `line` is a line in the long format for the object under that name. -/
inductive ShownAs : Object → PathBuf → Str → Prop
  | row {kind : RowKind} {size : Nat} {p : PathBuf} (k : Columns) : k.size = size → '\n' ∉ p →
      (∀ t, kind = .symlink t → '\n' ∉ t) → ShownAs (.row kind size) p (k.line kind.letter (kind.shown p))
  | special {letter : Char} {other : typeLetter letter = false ∧ isWhite letter = false} {p : PathBuf} (rest : Str) :
      ShownAs (.special letter other) p (letter :: rest)

/-- `test` and `ls` answer from the tree and leave the world alone. -/
structure ShowsTree {ω : Type} (M : Sh.Machine ω) (tree : ω → Tree) : Prop where
  isDirectory : ∀ w p, M.utility w M.home (ShellCmd.isDirectory p).words = ([], if (tree w).isDir p then 0 else 1, w)
  existsPath : ∀ w p,
    M.utility w M.home (ShellCmd.existsPath p).words = ([], if ((tree w).stat p).isSome then 0 else 1, w)
  present : ∀ w p o, (tree w).lstat p = some o →
    ∃ line, ShownAs o p line ∧ (M.utility w M.home ((tree w).lsCmd p).words).1 = line ++ ['\n']
  absent : ∀ w p, (tree w).lstat p = none → (M.utility w M.home ((tree w).lsCmd p).words).1 = []
  same : ∀ w p, (M.utility w M.home ((tree w).lsCmd p).words).2.2 = w

/-- What `ls` prints for a path. -/
def lsReply {ω : Type} (M : Sh.Machine ω) (tree : ω → Tree) (w : ω) (p : PathBuf) : Str :=
  (M.utility w M.home ((tree w).lsCmd p).words).1

/-! ## Readable lines -/

/-- Behind the last size and date of the line stands a name other than `.` and `..`. -/
def Readable (K : Classes) (line : Str) : Prop :=
  ∃ c : Cut, c.Valid K ∧ c.text = line ∧ c.LastPlace K ∧ c.Snug ∧ c.entryName ≠ dot ∧ c.entryName ≠ dotDot

section
variable {L : Libs} {year : Int} {dir : PathBuf} {line : Str}

theorem parse_ok_iff_readable (hn : '\n' ∉ line) :
    (∃ f, parseLsOutput L year dir line = .ok f) ↔ Readable L.classes line := by
  constructor
  · rintro ⟨f, hf⟩
    obtain ⟨c, hc, -, hdot, hdotdot⟩ := reads_of_parse hf
    exact ⟨c, hc.valid, hc.text, hc.lastPlace hn, hc.snug, hdot, hdotdot⟩
  · rintro ⟨d, hd, ht, hlast, hsnug, hdot, hdotdot⟩
    obtain ⟨c, hc⟩ := exists_reads hd ht
    have hshown := (entryName_of_last hc hn hd ht hlast hsnug).2
    have hentry : c.entryName = d.entryName := by unfold Cut.entryName; rw [hshown]
    refine ⟨c.file L year dir, ?_⟩
    rw [parseLsOutput_of_reads hc, hentry, if_neg (not_or.2 ⟨hdot, hdotdot⟩)]

end

/-- A line that ends in something else than white space, with its own columns at the last place. -/
theorem Columns.readable_of_last {K : Classes} {k : Columns} (hflag : k.flag = none) (hshort : k.clock.Short)
    {letter : Char} (hletter : typeLetter letter = true) {shown : Str} (hshown : Txt shown)
    (hlast : (k.cut letter shown).LastPlace K) (hhead : ∀ x, shown.head? = some x → isWhite x = false)
    (hdot : (k.cut letter shown).entryName ≠ dot) (hdotdot : (k.cut letter shown).entryName ≠ dotDot) :
    Readable K (k.line letter shown) :=
  ⟨k.cut letter shown, Columns.cut_valid hshort hletter hshown, Columns.cut_text hflag letter shown, hlast,
    Or.inl hhead, hdot, hdotdot⟩

/-! ## The answer to `ls` of one path -/

theorem not_mem_trim {s : Str} {c : Char} (h : c ∉ s) : c ∉ trim s := by
  obtain ⟨b, hs, -⟩ := trim_split s
  intro hc
  refine h ?_
  rw [hs]
  simp [hc]

/-- Of a line only the end of the name can be trimmed. -/
theorem Columns.trim_line (k : Columns) {letter : Char} (hletter : isWhite letter = false) {shown : Str}
    (hshown : trimEnd shown ≠ []) : trim (k.line letter shown ++ ['\n']) = k.line letter (trimEnd shown) := by
  obtain ⟨b, hsplit, hb, hlast⟩ := trimEnd_split shown
  have hline : k.line letter shown = k.line letter (trimEnd shown) ++ b := by
    rw [line, line, List.cons_append, List.append_assoc, List.append_assoc, List.append_assoc, ← hsplit]
  rw [trim_append_blank newline_blank, hline, trim_append_blank hb]
  refine trim_tight ⟨fun c hc => ?_, fun c hc => hlast c ?_⟩
  · cases hc
    exact hletter
  · have hfront : k.line letter (trimEnd shown) = (letter ::
      (k.perms ++ (k.flag.toList ++ k.text))) ++ trimEnd shown := by
      simp [line]
    rwa [hfront, List.getLast?_append_of_ne_nil _ hshown] at hc

/-- A name without digits and without blanks at its ends is read. -/
theorem Columns.readable_of_no_digit {K : Classes} {k : Columns} (hflag : k.flag = none) (hshort : k.clock.Short)
    {c : RowKind} {p : PathBuf} (hp : Txt (c.shown p)) (htight : Tight (c.shown p))
    (hdigit : (c.shown p).all (fun x => !K.digit x) = true)
    (hdots : (k.cut c.letter (c.shown p)).entryName ∉ [dot, dotDot]) :
    Readable K (trim (k.line c.letter (c.shown p) ++ ['\n'])) := by
  have htrim : trimEnd (c.shown p) = c.shown p := by
    have h := trimEnd_append (b := []) blank_nil htight.2
    rwa [List.append_nil] at h
  have hletter : isWhite c.letter = false := by cases c <;> rfl
  rw [Columns.trim_line _ hletter (by rw [htrim]; exact hp.2), htrim]
  rw [List.mem_cons, List.mem_singleton, not_or] at hdots
  exact Columns.readable_of_last hflag hshort c.typeLetter_letter hp
    (Columns.lastPlace_of_no_digit hshort c.typeLetter_letter hp hdigit) htight.1 hdots.1 hdots.2

section
variable {σ ω : Type} {M : Sh.Machine ω} {world : σ → ω} {tree : ω → Tree} {w : ω} {p : PathBuf}

/-- A text keeps its first character when that is not blank. -/
theorem head_trim {letter : Char} (h : isWhite letter = false) (rest : Str) :
    (trim (letter :: rest)).head? = some letter := by
  have hstart : trimStart (letter :: rest) = letter :: rest := List.dropWhile_cons_of_neg (by simp [h])
  obtain ⟨b, hsplit, hb, -⟩ := trimEnd_split (letter :: rest)
  unfold trim
  rw [hstart]
  cases ht : trimEnd (letter :: rest) with
  | nil =>
    rw [ht, List.nil_append] at hsplit
    rw [← hsplit, blank_cons, h] at hb
    cases hb.1
  | cons x xs =>
    rw [ht, List.cons_append, List.cons.injEq] at hsplit
    rw [hsplit.1]
    rfl

/-- The answer for a special file is not a line that is read. -/
theorem ShowsTree.no_cut_special (hM : ShowsTree M tree) {letter : Char}
    {other : typeLetter letter = false ∧ isWhite letter = false} (ho : (tree w).lstat p = some (.special letter other))
    {K : Classes} {c : Cut} (hc : c.Valid K) : c.text ≠ trim (lsReply M tree w p) := by
  obtain ⟨line, hline, hout⟩ := hM.present w p _ ho
  unfold lsReply
  rw [hout, trim_append_blank newline_blank]
  cases hline with
  | special rest =>
    intro htext
    have hkind : some c.kind = some letter := by
      rw [← head_trim other.2 rest, ← htext]
      rfl
    have hk := hc.kind
    rw [Option.some.inj hkind, other.1] at hk
    cases hk

/-- The letter of a line is that of the object. -/
theorem ShowsTree.kind_of_text (hM : ShowsTree M tree) {kind : RowKind} {size : Nat}
    (ho : (tree w).lstat p = some (.row kind size)) {c : Cut} (htext : c.text = trim (lsReply M tree w p)) :
    c.kind = kind.letter := by
  obtain ⟨line, hline, hout⟩ := hM.present w p _ ho
  unfold lsReply at htext
  rw [hout, trim_append_blank newline_blank] at htext
  cases hline with
  | row k hsize hp htarget =>
    have hletter : isWhite kind.letter = false := by cases kind <;> rfl
    refine Option.some.inj ?_
    rw [← head_trim hletter, ← Columns.line, ← htext]
    rfl

/-- The other answers are one line. -/
theorem ShowsTree.newline_reply (hM : ShowsTree M tree)
    (ho : ∀ letter other, (tree w).lstat p ≠ some (.special letter other)) :
    '\n' ∉ trim (lsReply M tree w p) := by
  unfold lsReply
  cases hl : (tree w).lstat p with
  | none =>
    rw [hM.absent w p hl]
    simp [trim, trimStart, trimEnd]
  | some o =>
    obtain ⟨line, hline, hout⟩ := hM.present w p o hl
    rw [hout, trim_append_blank newline_blank]
    cases hline with
    | row k hsize hp htarget =>
      refine not_mem_trim (k.newline_line ?_ (RowKind.newline_shown hp htarget))
      rename_i kind size
      cases kind <;> simp [RowKind.letter]
    | special rest => exact absurd hl (ho _ _)

theorem ShowsTree.parse_ok_iff (hM : ShowsTree M tree) {L : Libs} {year : Int} {dir : PathBuf} :
    (∃ f, parseLsOutput L year dir (trim (lsReply M tree w p)) = .ok f) ↔
      Readable L.classes (trim (lsReply M tree w p)) := by
  by_cases h : ∃ letter other, (tree w).lstat p = some (.special letter other)
  · obtain ⟨letter, other, ho⟩ := h
    rw [parseLsOutput_of_no_cut fun c hc => hM.no_cut_special ho hc]
    constructor
    · rintro ⟨f, hf⟩
      cases hf
    · rintro ⟨c, hc, htext, -⟩
      exact absurd htext (hM.no_cut_special ho hc)
  · exact parse_ok_iff_readable (hM.newline_reply fun letter other ho => h ⟨letter, other, ho⟩)

end

/-! ## The client's steps -/

section
variable {ω : Type} {M : Sh.Machine ω} {tree : ω → Tree} {w : ω}

theorem ShowsTree.calls_isDirectory (hM : ShowsTree M tree) {p : PathBuf} (hp : Sh.Plain p) :
    (ShellCmd.isDirectory p).Calls M :=
  ShellCmd.calls rfl trivial (by simpa [ShellCmd.paths] using hp) fun w => by rw [hM.isDirectory]

theorem ShowsTree.calls_existsPath (hM : ShowsTree M tree) {p : PathBuf} (hp : Sh.Plain p) :
    (ShellCmd.existsPath p).Calls M :=
  ShellCmd.calls rfl trivial (by simpa [ShellCmd.paths] using hp) fun w => by rw [hM.existsPath]

/-- The command of `stat` is one utility of the machine. -/
theorem Tree.lsCmd_spec (t : Tree) {p : PathBuf} (hp : Sh.Plain p) :
    (∃ args, (t.lsCmd p).words = "ls".toList :: args) ∧ (t.lsCmd p).withRc = false ∧
      Sh.parse (t.lsCmd p).line = some [(t.lsCmd p).words.map Sh.lits] := by
  have hread : ∀ c : ShellCmd, c.AroundPaths → c.paths = [p] → Sh.parse c.line = some c.commands := fun c hc hpaths =>
    (ShellCmd.line_reads_iff c hc).2 fun q hq => by
      rw [hpaths, List.mem_singleton] at hq
      rwa [hq]
  unfold lsCmd
  by_cases hd : t.isDir p = true
  · rw [if_pos hd]
    refine ⟨⟨_, rfl⟩, rfl, ?_⟩
    rw [hread (.statDir p) trivial rfl, ShellCmd.commands_eq]
    rfl
  · rw [if_neg hd]
    refine ⟨⟨_, rfl⟩, rfl, ?_⟩
    rw [hread (.statFile p) trivial rfl, ShellCmd.commands_eq]
    rfl

end

namespace ScpFs

section
variable {σ ω : Type} {M : Sh.Machine ω} {world : σ → ω} {tree : ω → Tree} {H : Handler Ssh σ} {L : Libs}
  {st st' : St Ssh ScpFs σ} {path : PathBuf} {f : File}

theorem parseLine_eq_ok {dir : PathBuf} {line : Str} {r : Except Unit File}
    (h : parseLine L dir line H st = (.ok r, st')) :
    (parseLsOutput L (H.reply .utcYear st.env).1 dir line = match r with | .ok f => .ok f | .error () => .err ()) ∧
      st'.self = st.self ∧ st'.env = (H.reply .utcYear st.env).2 := by
  unfold parseLine at h
  rw [bind_ok (ask_run .utcYear st)] at h
  rcases parseLsOutput_cases L (H.reply .utcYear st.env).1 dir line with ⟨f, hf⟩ | hf
  · rw [attempt_ok (by rw [ofOut_run, hf])] at h
    cases h
    exact ⟨hf, rfl, rfl⟩
  · rw [attempt_err (by rw [ofOut_run, hf])] at h
    cases h
    exact ⟨hf, rfl, rfl⟩

theorem lsCmd_of_test {t : Tree} {q : PathBuf} {b : Bool} {w : ω}
    (hb : b = decide ((([], if t.isDir q then 0 else 1, w) : Str × UInt8 × ω).2.1 = 0)) :
    (if b = true then ShellCmd.statDir q else .statFile q) = t.lsCmd q := by
  unfold Tree.lsCmd
  rw [hb]
  cases t.isDir q <;> rfl

/-- A `stat` that succeeds has read the answer to `ls`. -/
theorem stat_hosts (hH : Hosts M world H) (hM : ShowsTree M tree)
    (habs : isAbsolute (absolutize st.self.wrkdir path) = true)
    (hplain : Sh.Plain (absolutize st.self.wrkdir path)) (h : stat L path H st = (.ok f, st')) :
    ∃ dir env, parent (absolutize st.self.wrkdir path) = some dir ∧
      parseLsOutput L (H.reply .utcYear env).1 dir (trim
        (lsReply M tree (world st.env) (absolutize st.self.wrkdir path))) =
        .ok f := by
  unfold stat at h
  obtain ⟨_, st₁, h₁, h⟩ := bind_eq_ok h
  obtain ⟨hself₁, hworld₁, session, hs⟩ := checkConnection_looks hH h₁
  rw [bind_ok self_run, hself₁] at h
  generalize hq : absolutize st.self.wrkdir path = q at *
  obtain ⟨b, st₂, h₂, h⟩ := bind_eq_ok h
  unfold isDirectory at h₂
  rw [bind_ok self_run] at h₂
  have habsq : absolutize st₁.self.wrkdir q = q := if_pos habs
  rw [habsq] at h₂
  obtain ⟨hself₂, hb, hworld₂⟩ := runTest_hosts hH (hM.calls_isDirectory hplain) h₂
  rw [hM.isDirectory, hworld₁] at hb hworld₂
  rw [bind_ok self_run, lsCmd_of_test hb, hself₂, hself₁, hs, bind_ok (unwrap_run session)] at h
  obtain ⟨r, st₃, h₃, h⟩ := bind_eq_ok h
  cases r with
  | error err => cases h
  | ok out =>
    obtain ⟨⟨args, hwords⟩, hrc, hparse⟩ := (tree (world st.env)).lsCmd_spec hplain
    obtain ⟨hout, -⟩ := hH.output hwords (by decide) hparse hrc (attempt_eq_ok h₃)
    rw [hworld₂] at hout
    cases hparent : parent q with
    | none => rw [hparent] at h; cases h
    | some dir =>
      rw [hparent] at h
      obtain ⟨r, st₄, h₄, h⟩ := bind_eq_ok h
      obtain ⟨hline, -, -⟩ := parseLine_eq_ok h₄
      cases r with
      | error _ => cases h
      | ok entry =>
        cases h
        refine ⟨dir, st₃.env, rfl, ?_⟩
        unfold lsReply
        rw [← hout]
        exact hline

/-- On a server that answers, `stat` succeeds when the path has a parent and its line can be read. -/
theorem stat_ok_iff (hH : Serves M world H) (hM : ShowsTree M tree) {session : SshSession}
    (hs : st.self.session = some session) (habs : isAbsolute (absolutize st.self.wrkdir path) = true)
    (hplain : Sh.Plain (absolutize st.self.wrkdir path)) :
    (∃ f st', stat L path H st = (.ok f, st')) ↔
      (parent (absolutize st.self.wrkdir path)).isSome = true ∧
        Readable L.classes (trim (lsReply M tree (world st.env) (absolutize st.self.wrkdir path))) := by
  constructor
  · rintro ⟨f, st', h⟩
    obtain ⟨dir, env, hparent, hf⟩ := stat_hosts hH.toHosts hM habs hplain h
    exact ⟨by rw [hparent]; rfl, hM.parse_ok_iff.1 ⟨f, hf⟩⟩
  · rintro ⟨hparent, hread⟩
    obtain ⟨dir, hdir⟩ := Option.isSome_iff_exists.1 hparent
    obtain ⟨st₁, h₁⟩ := checkConnection_serves hH hs
    obtain ⟨hself₁, hworld₁, -⟩ := checkConnection_looks hH.toHosts h₁
    unfold stat
    rw [bind_ok h₁, bind_ok self_run, hself₁]
    generalize hq : absolutize st.self.wrkdir path = q at *
    have habsq : absolutize st₁.self.wrkdir q = q := if_pos habs
    obtain ⟨b, st₂, h₂⟩ := runTest_serves hH (hM.calls_isDirectory hplain) (hself₁ ▸ hs)
    obtain ⟨hself₂, hb, hworld₂⟩ := runTest_hosts hH.toHosts (hM.calls_isDirectory hplain) h₂
    rw [hM.isDirectory, hworld₁] at hb hworld₂
    have htest : isDirectory q H st₁ = (.ok b, st₂) := by
      unfold isDirectory
      rw [bind_ok self_run, habsq]
      exact h₂
    rw [bind_ok htest, bind_ok self_run, lsCmd_of_test hb, hself₂, hself₁, hs, bind_ok (unwrap_run session)]
    obtain ⟨⟨args, hwords⟩, hrc, hparse⟩ := (tree (world st.env)).lsCmd_spec hplain
    rw [hwords] at hparse
    obtain ⟨st₃, h₃⟩ := hH.answers session _ st₂ _ (M.runLine_of_parse hparse _)
    rw [← ShellCmd.line_of_bare hrc, M.run_utility (by decide), ← hwords, hworld₂] at h₃
    rw [bind_ok (attempt_ok h₃), hdir]
    obtain ⟨year, st₄, ⟨f, hparse, hrun⟩ | ⟨hparse, hrun⟩⟩ := parseLine_run (H := H) L dir
      (trim (lsReply M tree (world st.env) q)) st₃
    · exact ⟨f, st₄, bind_ok hrun⟩
    · have hf : ∃ f, parseLsOutput L year dir (trim (lsReply M tree (world st.env) q)) = .ok f :=
        hM.parse_ok_iff.2 hread
      rw [hparse] at hf
      obtain ⟨f, hf⟩ := hf
      cases hf

end

end ScpFs

/-! ## A machine that shows a tree -/

/-- The line for an object, with the columns of one row in front of it. -/
def rowLine (k : Columns) (p : PathBuf) : Object → Str
  | .row kind size => { k with size := size }.line kind.letter (kind.shown p)
  | .special letter _ => letter :: k.perms

/-- It knows `test` and `ls` of one path. -/
def treeMachine (t : Tree) (k : Columns) : Sh.Machine Unit where
  home := ['/']
  enter _ _ dir := if t.isDir dir then some dir else none
  utility _ _ ws :=
    match ws with
    | [cmd, flag, p] =>
      if cmd = "test".toList then
        ([], if (if flag = "-d".toList then t.isDir p else (t.stat p).isSome) then 0 else 1, ())
      else if cmd = "ls".toList then (((t.lstat p).map fun o => rowLine k p o ++ ['\n']).getD [], 0, ())
      else ([], 127, ())
    | _ => ([], 127, ())

theorem treeMachine_shows {t : Tree} {k : Columns}
    (htext : ∀ p kind size, t.lstat p = some (.row kind size) → '\n' ∉ p ∧ ∀ u, kind = .symlink u → '\n' ∉ u) :
    ShowsTree (treeMachine t k) fun _ => t := by
  have hls : ∀ p, (treeMachine t k).utility () (treeMachine t k).home (t.lsCmd p).words =
      (((t.lstat p).map fun o => rowLine k p o ++ ['\n']).getD [], 0, ()) := by
    intro p
    unfold Tree.lsCmd
    split <;> rfl
  refine ⟨fun w p => rfl, fun w p => rfl, fun w p o ho => ?_, fun w p ho => ?_, fun w p => rfl⟩
  · refine ⟨rowLine k p o, ?_, by rw [hls, ho]; rfl⟩
    cases o with
    | row kind size =>
      obtain ⟨hp, hu⟩ := htext p kind size ho
      exact .row { k with size := size } rfl hp hu
    | special letter other => exact .special k.perms
  · rw [hls, ho]
    rfl

/-- The tree in which a link leads where `leads` says. -/
def Tree.of (lstat leads : PathBuf → Option Object) (h : ∀ p o, leads p = some o → o.isLink = false) : Tree where
  lstat := lstat
  stat p := (lstat p).bind fun o => if o.isLink then leads p else some o
  stat_absent p hp := by rw [hp]; rfl
  stat_self p o hp hl := by rw [hp, Option.bind_some, if_neg (by simp [hl])]
  stat_end p o hp := by
    obtain ⟨o', -, ho⟩ := Option.bind_eq_some_iff.1 hp
    by_cases hl : o'.isLink = true
    · rw [if_pos hl] at ho
      exact h p o ho
    · rw [if_neg hl] at ho
      cases ho
      simpa using hl

/-- `/srv/a` is a file of one byte, `/srv/k` a link to it, and `/srv/l` a link to nothing. -/
def sampleTree : Tree :=
  .of
    (fun p =>
      if p = "/srv/a".toList then some (.row .regular 1)
      else if p = "/srv/k".toList then some (.row (.symlink "a".toList) 1)
      else if p = "/srv/l".toList then some (.row (.symlink "gone".toList) 4)
      else none)
    (fun p => if p = "/srv/k".toList then some (.row .regular 1) else none)
    (fun p o h => by
      split at h
      · cases h; rfl
      · cases h)

def sampleMachine : Sh.Machine Unit := treeMachine sampleTree plainRow.toColumns

theorem sampleMachine_shows : ShowsTree sampleMachine fun _ => sampleTree := by
  refine treeMachine_shows fun p kind size h => ?_
  unfold sampleTree Tree.of at h
  dsimp only at h
  split at h
  · cases h
    rename_i hp
    subst hp
    exact ⟨by decide, fun u hu => by cases hu⟩
  · split at h
    · cases h
      rename_i hp
      subst hp
      exact ⟨by decide, fun u hu => by cases hu; decide⟩
    · split at h
      · cases h
        rename_i hp
        subst hp
        exact ⟨by decide, fun u hu => by cases hu; decide⟩
      · cases h

end RemotefsSsh
