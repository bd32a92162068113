import Mathlib.Data.List.Nodup
import Mathlib.Data.List.Perm.Basic
import RemotefsSsh.ExistsStat
import RemotefsSsh.FileStats
import RemotefsSsh.ListDir
import RemotefsSsh.LsExact

/-!
# `list_dir` of the two clients (ssh/scp.rs:61-185, :302-334, ssh/sftp.rs:61-120, :222-236)

`ScpFs::list_dir` reads the lines of `ls -la`, `SftpFs::list_dir` the answer to READDIR and, for a symbolic link, to
READLINK. For the same directory both return the same entries, in the one order or the other, as long as `ls` prints
owner and group as bare numbers without padding, no special bit stands without its execute bit, and there is nothing
in it but regular files, directories and symbolic links (`listings_agree_iff`): `SftpFs` makes a regular file of a
device or a socket, `ScpFs` leaves it out.
-/

namespace RemotefsSsh

open Utf8 UnixPath Effect Prog

/-! ## A directory and what is told of it -/

def RowKind.target : RowKind → Option PathBuf
  | symlink target => some target
  | _ => none

/-- A regular file, a directory or a symbolic link in a directory. -/
structure Node where
  name : Str
  kind : RowKind
  size : UInt64
  mode : UnixPex
  special : SpecialBits
  uid : UInt32
  gid : UInt32

/-- A file without its times. -/
def File.timeless (f : File) : File :=
  { f with metadata := { f.metadata with accessed := none, created := none, modified := none } }

/-- The file that is due for a node. -/
def Node.entry (dir : PathBuf) (n : Node) : File where
  path := push dir n.name
  metadata :=
    { accessed := none, created := none, fileType := n.kind.fileType, gid := some n.gid, mode := some n.mode,
      modified := none, size := n.size, symlink := n.kind.target, uid := some n.uid }

/-- The row is that of the node, and its columns are told from its name in one way only. -/
structure Row.Prints (K : Classes) (r : Row) (n : Node) : Prop where
  name : r.name = n.name
  kind : r.kind = n.kind
  size : r.size = n.size.toNat
  perms : r.perms = n.mode.letters n.special
  unambiguous : r.toColumns.Unambiguous K r.kind.letter 0 r.shown
  no_return : r.shown.getLast? ≠ some '\r'
  arrow : ∀ target, r.kind = .symlink target → arrowCut r.shown = (r.name, some target)

/-- Owner, group and mode are read from the row as they are. -/
structure Row.ToldRight (r : Row) (n : Node) : Prop where
  uid : r.toColumns.uid = some n.uid
  gid : r.toColumns.gid = some n.gid
  setuid : n.special.setuid = true → n.mode.user.execute = true
  setgid : n.special.setgid = true → n.mode.group.execute = true
  sticky : n.special.sticky = true → n.mode.others.execute = true

/-- What READDIR tells of a node. -/
structure Node.Told (dir : PathBuf) (n : Node) (a : PathBuf × FileStat) : Prop where
  path : a.1 = push dir n.name
  size : a.2.size = some n.size
  uid : a.2.uid = some n.uid
  gid : a.2.gid = some n.gid
  mode : a.2.perm.map UnixPex.ofU32 = some n.mode
  isSymlink : a.2.isSymlink = n.kind.target.isSome
  isDir : a.2.isDir = decide (n.kind = .directory)

def Entry.isSpecial : Entry → Bool
  | row _ => false
  | special .. => true

/-- The answers of an SFTP server for a directory with these nodes and this many other objects, in any order. -/
structure TellsDir {σ : Type} (H : Handler Ssh σ) (dir : PathBuf) (nodes : List Node) (others : Nat) : Prop where
  readdir : ∀ sftp env answers, (H.reply (.readdir sftp dir) env).1 = .ok answers →
    ∃ told rest, List.Forall₂ (Node.Told dir) nodes told ∧ rest.length = others ∧ (told ++ rest).Perm answers
  readlink : ∀ sftp env, ∀ n ∈ nodes, ∀ target, n.kind = .symlink target →
    (H.reply (.readlink sftp (push dir n.name)) env).1 = .ok target

/-- The answer of a shell to `ls -la`. -/
def PrintsDir {σ : Type} (H : Handler Ssh σ) (dir : PathBuf) (out : Str) : Prop :=
  ∀ (session : SshSession) (st : St Ssh ScpFs σ) output st',
    performShellCmd session (ShellCmd.listDir dir).text H st = (.ok output, st') → output = out

/-! ## Over SCP -/

/-- The file that is read from a row. -/
def Row.entry (dir : PathBuf) (r : Row) (n : Node) : File where
  path := push dir n.name
  metadata :=
    { accessed := none, created := none, fileType := n.kind.fileType, gid := r.toColumns.gid,
      mode := some (modeOf r.perms), modified := none, size := n.size, symlink := n.kind.target,
      uid := r.toColumns.uid }

section
variable {L : Libs} {dir : PathBuf} {r : Row} {n : Node}

theorem Row.Prints.shown (h : r.Prints L.classes n) :
    (r.toColumns.cut r.kind.letter r.shown).shown = (n.name, n.kind.target) := by
  unfold Cut.shown
  rw [← h.name, ← h.kind]
  have hplain : ∀ kind : RowKind, r.kind = kind → kind.letter ≠ 'l' → kind.shown r.name = r.name → kind.target = none →
      (if r.kind.letter = 'l' then arrowCut r.shown else (r.shown, none)) = (r.name, r.kind.target) := by
    intro kind hk hl hshown htarget
    rw [hk, if_neg hl, Row.shown, hk, hshown, htarget]
  cases hk : r.kind with
  | symlink target => exact (if_pos rfl).trans (h.arrow target hk)
  | regular => exact hk ▸ hplain .regular hk (by decide) rfl rfl
  | directory => exact hk ▸ hplain .directory hk (by decide) rfl rfl

/-- A row gives the file of its node, but for what is read as owner, group and mode. -/
theorem Row.Prints.parse (h : r.Prints L.classes n) (dir : PathBuf) (hname : IsName r.name) (year : Int) :
    ∃ f, parseLsOutput L year dir (stripCr r.line) = .ok f ∧ f.timeless = r.entry dir n := by
  obtain ⟨c, hread, hparse⟩ := parseLsOutput_unambiguous (L := L) year dir h.unambiguous
  have hentry : (r.toColumns.cut r.kind.letter r.shown).entryName = n.name := by
    unfold Cut.entryName
    rw [h.shown, ← h.name]
    exact sanitize_of_isName hname
  rw [hentry, ← h.name, if_neg (not_or.2 hname.2.2)] at hparse
  have hline : stripCr r.line = r.toColumns.line r.kind.letter (Columns.spaced 0 r.shown) := by
    rw [Row.stripCr_line, stripCr, if_neg h.no_return]
    rfl
  refine ⟨_, hline ▸ hparse, ?_⟩
  have hsize : (parseU64 c.size).getD 0 = n.size := by
    rw [hread.size]
    show (parseU64 (decimal r.size)).getD 0 = n.size
    rw [h.size, parseU64_decimal]
    rfl
  have htype : c.fileType = n.kind.fileType := by
    unfold Cut.fileType
    rw [hread.shown, h.shown, hread.kind, h.kind]
    cases n.kind <;> rfl
  have hlink : c.shown.2 = n.kind.target := by rw [hread.shown, h.shown]
  simp only [File.timeless, Cut.file, Cut.metadata, Row.entry, hread.entryName, hentry, hread.uid,
    hread.gid, hread.perms,
    hsize, htype, hlink]
  rfl

/-- The two files are the same exactly when the row is read as it should be. -/
theorem Row.Prints.entry_eq_iff (h : r.Prints L.classes n) : r.entry dir n = n.entry dir ↔ r.ToldRight n := by
  have hmode : modeOf r.perms = n.mode ↔ (n.special.setuid = true → n.mode.user.execute = true) ∧
      (n.special.setgid = true → n.mode.group.execute = true) ∧
      (n.special.sticky = true → n.mode.others.execute = true) := by
    rw [h.perms, modeOf_letters_iff]
  constructor
  · intro heq
    have hmeta := congrArg File.metadata heq
    obtain ⟨hsu, hsg, hst⟩ := hmode.1 (Option.some.inj (congrArg Metadata.mode hmeta))
    exact ⟨congrArg Metadata.uid hmeta, congrArg Metadata.gid hmeta, hsu, hsg, hst⟩
  · intro ht
    unfold Row.entry Node.entry
    rw [ht.uid, ht.gid, hmode.2 ⟨ht.setuid, ht.setgid, ht.sticky⟩]

/-- The files are those of the rows, in order. -/
theorem Lists.entries {es : List Entry} {nodes : List Node} {files : List File}
    (h : Lists L dir (es.map fun e => stripCr e.line) files)
    (hprints : List.Forall₂ (Row.Prints L.classes) (es.filterMap Entry.due) nodes) :
    files.map File.timeless = List.zipWith (Row.entry dir) (es.filterMap Entry.due) nodes := by
  induction es generalizing files nodes with
  | nil =>
    cases h
    rfl
  | cons e es ih =>
    cases hdue : e.due with
    | none =>
      rw [List.filterMap_cons_none hdue] at hprints ⊢
      cases h with
      | keep year hparse _ => rw [Entry.parse_none hdue] at hparse; cases hparse
      | skip year _ hrest => exact ih hrest hprints
    | some r =>
      rw [List.filterMap_cons_some hdue] at hprints ⊢
      obtain ⟨rfl, hname⟩ := Entry.due_eq_some hdue
      obtain ⟨n, nodes', hr, hrows, rfl⟩ := List.forall₂_cons_left_iff.1 hprints
      cases h with
      | keep year hparse hrest =>
        obtain ⟨f, hf, htimeless⟩ := hr.parse dir hname year
        obtain rfl : f = _ := Out.ok.inj (hf.symm.trans hparse)
        rw [List.map_cons, List.zipWith_cons_cons, htimeless, ih hrest hrows]
      | skip year herr _ =>
        obtain ⟨f, hf, -⟩ := hr.parse dir hname year
        cases hf.symm.trans herr

end

theorem ScpFs.listDir_lists {σ : Type} {H : Handler Ssh σ} {L : Libs} {dir path : PathBuf}
    {out : Str} {files : List File}
    {st st' : St Ssh ScpFs σ} (hH : PrintsDir H dir out) (hdir : absolutize st.self.wrkdir path = dir)
    (h : listDir L path H st = (.ok files, st')) : Lists L dir (lines out) files := by
  unfold listDir at h
  obtain ⟨_, st₁, h₁, h⟩ := bind_eq_ok h
  have hself : st₁.self = st.self := by
    have hc := checkConnection_self (H := H) st
    rwa [h₁] at hc
  rw [bind_ok self_run, hself, hdir] at h
  obtain ⟨b, st₂, -, h⟩ := bind_eq_ok h
  cases b with
  | false => cases h
  | true =>
    rw [if_pos rfl, bind_ok self_run] at h
    obtain ⟨session, st₃, -, h⟩ := bind_eq_ok h
    obtain ⟨r, st₄, h₄, h⟩ := bind_eq_ok h
    cases r with
    | error err => cases h
    | ok output =>
      obtain rfl := hH _ _ _ _ (attempt_eq_ok h₄)
      obtain ⟨files', st₅, hrun, hlists⟩ := listLines_run (H := H) L dir (lines output) st₄
      cases hrun.symm.trans h
      exact hlists

/-- One file for each node, in order. -/
theorem ScpFs.listDir_entries {σ : Type} {H : Handler Ssh σ} {L : Libs} {dir path : PathBuf}
    {total : Nat} {es : List Entry}
    {nodes : List Node} {files : List File} {st st' : St Ssh ScpFs σ} (hH : PrintsDir H dir (reply total es))
    (hprints : List.Forall₂ (Row.Prints L.classes) (es.filterMap Entry.due) nodes)
    (hdir : absolutize st.self.wrkdir path = dir) (h : listDir L path H st = (.ok files, st')) :
    files.map File.timeless = List.zipWith (Row.entry dir) (es.filterMap Entry.due) nodes := by
  have hlists := listDir_lists hH hdir h
  rw [lines_reply] at hlists
  cases hlists with
  | keep year hparse _ =>
    rw [parseLsOutput_of_no_cut fun c hc => no_cut_header total hc] at hparse
    cases hparse
  | skip year _ hrest => exact hrest.entries hprints

/-! ## Over SFTP -/

namespace SftpFs

section
variable {σ : Type} {H : Handler Ssh σ} {st st' : St Ssh SftpFs σ} {dir : PathBuf} {nodes : List Node} {others : Nat}

theorem linkTarget_node (hH : TellsDir H dir nodes others) {n : Node} (hn : n ∈ nodes) {a : PathBuf × FileStat}
    (ha : n.Told dir a) {o : Option PathBuf} (h : linkTarget a.1 a.2 H st = (.ok o, st')) : o = n.kind.target := by
  unfold linkTarget at h
  cases hk : n.kind with
  | symlink target =>
    have hl : a.2.isSymlink = true := by rw [ha.isSymlink, hk]; rfl
    rw [if_pos hl, bind_ok self_run] at h
    obtain ⟨sftp, st₁, -, h⟩ := bind_eq_ok h
    obtain ⟨r, st₂, hask, h⟩ := bind_eq_ok h
    have hr := hH.readlink sftp st₁.env n hn target hk
    rw [← ha.path, (ask_ok hask).1] at hr
    subst hr
    cases h
    rfl
  | _ =>
    have hl : ¬ a.2.isSymlink = true := by rw [ha.isSymlink, hk]; decide
    rw [if_neg hl] at h
    cases h
    rfl

theorem makeFsentry_node (hH : TellsDir H dir nodes others) {n : Node} (hn : n ∈ nodes) {a : PathBuf × FileStat}
    (ha : n.Told dir a) {f : File} (h : makeFsentry a.1 a.2 H st = (.ok f, st')) : f.timeless = n.entry dir := by
  unfold makeFsentry at h
  obtain ⟨symlink, st₁, hlink, h⟩ := bind_eq_ok h
  have hsymlink := linkTarget_node hH hn ha hlink
  cases h
  have htype : (if symlink.isSome then .symlink else if a.2.isDir then .directory else .file : FileType) =
    n.kind.fileType := by
    rw [hsymlink, ha.isDir]
    cases n.kind <;> rfl
  have hsize : a.2.size.getD 0 = n.size := by rw [ha.size]; rfl
  simp only [File.timeless, Node.entry, File.mk.injEq, Metadata.mk.injEq, true_and]
  exact ⟨ha.path, htype, ha.gid, ha.mode, hsize, hsymlink, ha.uid⟩

theorem makeFsentries_forall {es : List (PathBuf × FileStat)} {files : List File}
    (h : makeFsentries es H st = (.ok files, st')) :
    List.Forall₂ (fun a f => ∃ st st', makeFsentry a.1 a.2 H st = (.ok f, st')) es files := by
  induction es generalizing files st with
  | nil =>
    cases h
    exact .nil
  | cons e es ih =>
    unfold makeFsentries at h
    obtain ⟨entry, st₁, h₁, h⟩ := bind_eq_ok h
    obtain ⟨rest, st₂, h₂, h⟩ := bind_eq_ok h
    cases h
    exact .cons ⟨_, _, h₁⟩ (ih h₂)

/-- The nodes come first in some order of the answers. -/
theorem entries_of_told (hH : TellsDir H dir nodes others) {ns : List Node} (hns : ∀ n ∈ ns, n ∈ nodes)
    {told rest : List (PathBuf × FileStat)} {files : List File} (htold : List.Forall₂ (Node.Told dir) ns told)
    (h : List.Forall₂ (fun a f => ∃ st st', makeFsentry a.1 a.2 H st = (.ok f, st')) (told ++ rest) files) :
    ∃ fs, fs.length = rest.length ∧ files.map File.timeless = ns.map (Node.entry dir) ++ fs := by
  induction htold generalizing files with
  | nil => exact ⟨files.map File.timeless, by rw [List.length_map, ← h.length_eq]; rfl, rfl⟩
  | cons ha _ ih =>
    obtain ⟨f, files', ⟨st, st', hf⟩, hfiles, rfl⟩ := List.forall₂_cons_left_iff.1 h
    obtain ⟨fs, hlen, hmap⟩ := ih (fun n hn => hns n (List.mem_cons_of_mem _ hn)) hfiles
    refine ⟨fs, hlen, ?_⟩
    rw [List.map_cons, hmap, makeFsentry_node hH (hns _ List.mem_cons_self) ha hf]
    rfl

/-- One file for each node, and one for each other object. -/
theorem listDir_entries (hH : TellsDir H dir nodes others) {path : PathBuf}
    (hdir : absolutize st.self.wrkdir path = dir)
    {files : List File} (h : listDir path H st = (.ok files, st')) :
    ∃ fs, fs.length = others ∧ (nodes.map (Node.entry dir) ++ fs).Perm (files.map File.timeless) := by
  obtain ⟨sftp, -, h⟩ := withSftp_eq_ok h
  rw [hdir] at h
  obtain ⟨answers, st₁, h₁, h⟩ := bind_eq_ok h
  obtain ⟨told, rest, htold, hrest, hperm⟩ := hH.readdir _ _ _ (ask_ok (orKind_eq_ok h₁)).1
  obtain ⟨files', hmade, hfiles⟩ := List.perm_comp_forall₂ hperm (makeFsentries_forall h)
  obtain ⟨fs, hlen, hmap⟩ := entries_of_told hH (fun _ => id) htold hmade
  exact ⟨fs, hlen.trans hrest, hmap ▸ hfiles.map _⟩

end

end SftpFs

/-! ## Both -/

/-- Two lists with the same elements are the same when their keys are, in order and each once. -/
theorem eq_of_perm_of_keys {α β : Type} {k : α → β} {l₁ l₂ : List α} (hperm : l₁.Perm l₂) (hkeys : l₁.map k = l₂.map k)
    (hnodup : (l₂.map k).Nodup) : l₁ = l₂ := by
  induction l₁ generalizing l₂ with
  | nil => exact (List.nil_perm.1 hperm).symm
  | cons a l₁ ih =>
    cases l₂ with
    | nil => cases List.perm_nil.1 hperm
    | cons b l₂ =>
      rw [List.map_cons, List.map_cons, List.cons.injEq] at hkeys
      rw [List.map_cons, List.nodup_cons] at hnodup
      have hab : a = b := by
        refine (List.mem_cons.1 (hperm.subset List.mem_cons_self)).resolve_right fun ha => hnodup.1 ?_
        rw [← hkeys.1]
        exact List.mem_map_of_mem ha
      subst hab
      rw [ih ((List.perm_cons a).1 hperm) hkeys.2 hnodup.2]

section
variable {K : Classes} {dir : PathBuf} {rows : List Row} {nodes : List Node}

theorem entries_eq_iff {L : Libs} (h : List.Forall₂ (Row.Prints L.classes) rows nodes) (dir : PathBuf) :
    List.zipWith (Row.entry dir) rows nodes = nodes.map (Node.entry dir) ↔ List.Forall₂ Row.ToldRight rows nodes := by
  induction h with
  | nil => simp
  | cons hr _ ih => rw [List.zipWith_cons_cons, List.map_cons, List.cons.injEq, hr.entry_eq_iff, ih, List.forall₂_cons]

theorem paths_eq (h : List.Forall₂ (Row.Prints K) rows nodes) :
    (List.zipWith (Row.entry dir) rows nodes).map File.path = (nodes.map (Node.entry dir)).map File.path := by
  induction h with
  | nil => rfl
  | cons _ _ ih =>
    rw [List.zipWith_cons_cons, List.map_cons, ih]
    rfl

theorem slash_not_mem_names (h : List.Forall₂ (Row.Prints K) rows nodes) : ∀ n ∈ nodes, '/' ∉ n.name := by
  induction h with
  | nil => exact fun n hn => absurd hn List.not_mem_nil
  | cons hr _ ih =>
    rw [List.forall_mem_cons, ← hr.name]
    exact ⟨Row.name_component _, ih⟩

theorem nodup_paths (hnames : ∀ n ∈ nodes, '/' ∉ n.name) (hnodup : (nodes.map Node.name).Nodup) :
    ((nodes.map (Node.entry dir)).map File.path).Nodup := by
  have hpaths : (nodes.map (Node.entry dir)).map File.path = (nodes.map Node.name).map (push dir) := by
    rw [List.map_map, List.map_map]
    rfl
  rw [hpaths]
  refine List.Nodup.map_on (fun a ha b hb heq => ?_) hnodup
  obtain ⟨n, hn, rfl⟩ := List.mem_map.1 ha
  obtain ⟨m, hm, rfl⟩ := List.mem_map.1 hb
  exact push_inj (not_absolute_of_slash (hnames n hn)) (not_absolute_of_slash (hnames m hm)) heq

end

/-- **The listings of the two clients are the same up to their order and the times exactly when there is nothing but
files, directories and links, and each row is read as it should be.** -/
theorem listings_agree_iff {σ₁ σ₂ : Type} {H₁ : Handler Ssh σ₁} {H₂ : Handler Ssh σ₂} {L : Libs}
    {dir path₁ path₂ : PathBuf}
    {total : Nat} {es : List Entry} {nodes : List Node} {files₁ files₂ : List File} {st₁ st₁' : St Ssh ScpFs σ₁}
    {st₂ st₂' : St Ssh SftpFs σ₂} (hnodup : (nodes.map Node.name).Nodup)
    (hprints : List.Forall₂ (Row.Prints L.classes) (es.filterMap Entry.due) nodes)
    (hH₁ : PrintsDir H₁ dir (reply total es)) (hH₂ : TellsDir H₂ dir nodes (es.countP Entry.isSpecial))
    (hdir₁ : absolutize st₁.self.wrkdir path₁ = dir) (hdir₂ : absolutize st₂.self.wrkdir path₂ = dir)
    (h₁ : ScpFs.listDir L path₁ H₁ st₁ = (.ok files₁, st₁')) (h₂ : SftpFs.listDir path₂ H₂ st₂ = (.ok files₂, st₂')) :
    (files₁.map File.timeless).Perm (files₂.map File.timeless) ↔
      (∀ e ∈ es, e.isSpecial = false) ∧ List.Forall₂ Row.ToldRight (es.filterMap Entry.due) nodes := by
  have hscp := ScpFs.listDir_entries hH₁ hprints hdir₁ h₁
  obtain ⟨fs, hlen, hsftp⟩ := SftpFs.listDir_entries hH₂ hdir₂ h₂
  have hspecial : (∀ e ∈ es, e.isSpecial = false) ↔ fs = [] := by
    rw [← List.length_eq_zero_iff, hlen, List.countP_eq_zero]
    simp
  generalize es.filterMap Entry.due = rows at *
  rw [hspecial, hscp, ← entries_eq_iff hprints dir]
  constructor
  · intro hperm
    have hperm := hperm.trans hsftp.symm
    have hnil : fs = [] := by
      have h := hperm.length_eq
      rw [List.length_append, List.length_map, List.length_zipWith, hprints.length_eq, Nat.min_self] at h
      exact List.length_eq_zero_iff.1 (by omega)
    subst hnil
    rw [List.append_nil] at hperm
    refine ⟨rfl, eq_of_perm_of_keys hperm (paths_eq hprints) ?_⟩
    exact nodup_paths (slash_not_mem_names hprints) hnodup
  · rintro ⟨rfl, heq⟩
    rw [heq]
    rwa [List.append_nil] at hsftp

/-! ## A file, a directory and a link -/

namespace SampleDir

def nodes : List Node :=
  [⟨['a'], .regular, 1, sampleMode, .none, 0, 0⟩, ⟨['d'], .directory, 1, sampleMode, .none, 0, 0⟩,
    ⟨['k'], .symlink ['a'], 1, sampleMode, .none, 0, 0⟩]

def row (kind : RowKind) (c : Char) (hc : c ≠ '\n' ∧ c ≠ '/' ∧ c ≠ '.') (ht : ∀ t, kind = .symlink t → '\n' ∉ t) :
    Row :=
  { sampleColumns noPads with
    kind
    name := [c]
    name_text := ⟨by simpa using hc.1.symm, by simp⟩
    name_component := by simpa using hc.2.1.symm
    target_text := ht
    dots := by
      rintro (h | h)
      · exact absurd (List.cons.inj h).1 hc.2.2
      · exact absurd (List.cons.inj h).2 (by decide) }

def rows : List Row :=
  [row .regular 'a' (by decide) nofun, row .directory 'd' (by decide) nofun,
    row (.symlink ['a']) 'k' (by decide) fun t h => by cases h; decide]

def answers : List (PathBuf × FileStat) :=
  [("/srv/k".toList, ⟨some 1, some 0, some 0, some 0o120644, none, none⟩),
    ("/srv/a".toList, ⟨some 1, some 0, some 0, some 0o100644, some 7, some 7⟩),
    ("/srv/d".toList, ⟨some 1, some 0, some 0, some 0o040644, none, none⟩)]

/-- It tells of the nodes in another order. -/
def sftpServer : Handler Ssh Unit where
  reply
    | .readdir .., s => (.ok answers, s)
    | .readlink .., s => (.ok ['a'], s)
    | c, s => (okReply c, s)

def sftpClient : St Ssh SftpFs Unit := ⟨⟨some ⟨0⟩, some ⟨0⟩, ['/'], SshOpts.new "h".toList⟩, (), []⟩

set_option maxRecDepth 20000 in
theorem prints : List.Forall₂ (Row.Prints Classes.ascii) ((rows.map Entry.row).filterMap Entry.due) nodes := by
  refine .cons ?_ (.cons ?_ (.cons ?_ .nil))
  · exact ⟨rfl, rfl, rfl, rfl, @sampleColumns_unambiguous noPads '-' 0 ['a'] rfl ⟨by decide, by decide⟩
      (fun c hc => by cases hc; decide) (by decide +kernel), by decide, nofun⟩
  · exact ⟨rfl, rfl, rfl, rfl, @sampleColumns_unambiguous noPads 'd' 0 ['d'] rfl ⟨by decide, by decide⟩
      (fun c hc => by cases hc; decide) (by decide +kernel), by decide, nofun⟩
  · exact ⟨rfl, rfl, rfl, rfl, @sampleColumns_unambiguous noPads 'l' 0 "k -> a".toList rfl ⟨by decide, by decide⟩
      (fun c hc => by cases hc; decide) (by decide +kernel), by decide, fun t h => by cases h; decide⟩

theorem tellsDir : TellsDir sftpServer "/srv".toList nodes 0 where
  readdir sftp env as h := by
    cases h
    refine ⟨[answers.get ⟨1, by decide⟩, answers.get ⟨2, by decide⟩, answers.get ⟨0, by decide⟩],
      [], ?_, rfl, by decide⟩
    exact .cons ⟨rfl, rfl, rfl, rfl, by decide, by decide, by decide⟩
      (.cons ⟨rfl, rfl, rfl, rfl, by decide, by decide, by decide⟩
        (.cons ⟨rfl, rfl, rfl, rfl, by decide, by decide, by decide⟩ .nil))
  readlink sftp env n hn target ht := by
    have hlinks : ∀ n ∈ nodes, n.kind.target.all (· = ['a']) = true := by decide
    have h := hlinks n hn
    rw [ht] at h
    exact congrArg Except.ok (of_decide_eq_true h).symm

end SampleDir

set_option maxRecDepth 20000 in
theorem listings_agree_sample : ∃ files₁ files₂ st₁ st₂,
    ScpFs.listDir sampleLibs "/srv".toList (listingServer (SampleDir.rows.map .row)) listingClient = (.ok files₁, st₁) ∧
      SftpFs.listDir "srv".toList SampleDir.sftpServer SampleDir.sftpClient = (.ok files₂, st₂) ∧
      (files₁.map File.timeless).Perm (files₂.map File.timeless) := by
  have hshell : PrintsDir (listingServer (SampleDir.rows.map .row)) "/srv".toList (reply 1 (SampleDir.rows.map .row)) :=
    fun session st output st' h => (shellServer_output h).trans (if_neg (by decide))
  obtain ⟨files₁, st₁, h₁, -⟩ := @listDir_shows_iff Str sampleLibs
    (listingServer (SampleDir.rows.map .row)) listingClient
    _ _ _ "/srv".toList ⟨0⟩ 1 (SampleDir.rows.map .row) rfl rfl rfl rfl rfl
  obtain ⟨files₂, st₂, h₂⟩ : ∃ files st', SftpFs.listDir "srv".toList SampleDir.sftpServer SampleDir.sftpClient =
    (.ok files, st') := ⟨_, _, rfl⟩
  refine ⟨files₁, files₂, st₁, st₂, h₁, h₂, (listings_agree_iff
    (by decide) SampleDir.prints hshell SampleDir.tellsDir rfl rfl
    h₁ h₂).2 ⟨by decide, ?_⟩⟩
  exact .cons ⟨by decide, by decide, nofun, nofun, nofun⟩ (.cons ⟨by decide, by decide, nofun, nofun, nofun⟩
    (.cons ⟨by decide, by decide, nofun, nofun, nofun⟩ .nil))

end RemotefsSsh
