import RemotefsSsh.Tree

/-!
# `stat` of the two clients (ssh/scp.rs:336-364, ssh/sftp.rs:61-120, :238-251)

`ScpFs::stat` reads what `ls` prints for the path itself, `SftpFs::stat` asks for what it leads to. So
they differ on symbolic links, and otherwise only where the line is not read as it was meant
(`stat_agree_iff`).
-/

namespace RemotefsSsh

open Utf8 UnixPath Effect Prog

/-- A STAT request that succeeds tells of a regular file or a directory: it follows links. -/
def TellsStat {σ : Type} (H : Handler Ssh σ) (tree : σ → Tree) : Prop :=
  ∀ sftp q attrs env, (H.reply (.stat sftp q) env).1 = .ok attrs →
    ∃ kind size, (tree env).stat q = some (.row kind size) ∧ attrs.isSymlink = false ∧
      attrs.isDir = decide (kind = .directory) ∧ attrs.size.map UInt64.toNat = some size

/-! ## Over SFTP -/

theorem SftpFs.stat_tree {σ : Type} {H : Handler Ssh σ} {tree : σ → Tree} (hT : TellsStat H tree) {path : PathBuf}
    {f : File} {st st' : St Ssh SftpFs σ} (h : SftpFs.stat path H st = (.ok f, st')) :
    ∃ kind size, (tree st.env).stat (absolutize st.self.wrkdir path) = some (.row kind size) ∧
      f.path = absolutize st.self.wrkdir path ∧ f.metadata.symlink = none ∧ f.metadata.size.toNat = size ∧
      f.metadata.fileType = if kind = .directory then .directory else .file := by
  unfold stat at h
  obtain ⟨sftp, -, h⟩ := withSftp_eq_ok h
  obtain ⟨attrs, st₁, h₁, h⟩ := bind_eq_ok h
  obtain ⟨hreply, -, -, -⟩ := ask_ok (orKind_eq_ok h₁)
  obtain ⟨kind, size, hstat, hlink, hdir, hsize⟩ := hT _ _ _ _ hreply
  unfold makeFsentry linkTarget at h
  rw [hlink] at h
  cases h
  obtain ⟨n, hn, hsize⟩ := Option.map_eq_some_iff.1 hsize
  refine ⟨kind, size, hstat, rfl, rfl, ?_, ?_⟩
  · dsimp only
    rw [hn]
    exact hsize
  · dsimp only
    rw [hdir]
    by_cases hkind : kind = .directory <;> simp [hkind]

/-! ## Both -/

/-- The line tells of what the path leads to: it is no line of a symbolic link (or hides that it is one, of
a file), the last size in it is the size, and the name behind that leads to the path. -/
def ReadsSame (K : Classes) (t : Tree) (q : PathBuf) (line : Str) : Prop :=
  ∃ dir kind size, parent q = some dir ∧ t.stat q = some (.row kind size) ∧
    ∃ c : Cut, c.Valid K ∧ c.text = line ∧ c.LastPlace K ∧ c.Snug ∧
      ((t.lstat q).any Object.isLink = true → c.shown.2 = none ∧ kind ≠ .directory) ∧
      ((parseU64 c.size).getD 0).toNat = size ∧ SamePath (push dir c.entryName) q

/-- What both clients report. -/
structure SameStat (f₁ f₂ : File) : Prop where
  path : SamePath f₁.path f₂.path
  fileType : f₁.metadata.fileType = f₂.metadata.fileType
  symlink : f₁.metadata.symlink = f₂.metadata.symlink
  size : f₁.metadata.size = f₂.metadata.size

theorem cut_fileType_plain {t : Tree} {q : PathBuf} {kind lkind : RowKind} {size lsize : Nat}
    (hl : t.lstat q = some (.row lkind lsize)) (hs : t.stat q = some (.row kind size)) {c : Cut}
    (hk : c.kind = lkind.letter) (hplain : ∀ target, lkind ≠ .symlink target) :
    (c.shown.2 = none ∧ c.fileType = if kind = .directory then .directory else .file) ↔
      ((t.lstat q).any Object.isLink = true → c.shown.2 = none ∧ kind ≠ .directory) := by
  have hlink : Object.isLink (.row lkind lsize) = false := by
    cases lkind with
    | symlink target => exact absurd rfl (hplain target)
    | _ => rfl
  have hsame := t.stat_self q _ hl hlink
  rw [hs] at hsame
  cases hsame
  have hnone : c.shown.2 = none := by
    unfold Cut.shown
    rw [if_neg]
    rw [hk]
    cases kind with
    | symlink target => exact absurd rfl (hplain target)
    | _ => simp [RowKind.letter]
  have htype : c.fileType = if kind = .directory then .directory else .file := by
    unfold Cut.fileType
    rw [hnone, hk]
    cases kind with
    | symlink target => exact absurd rfl (hplain target)
    | _ => simp [RowKind.letter]
  refine iff_of_true ⟨hnone, htype⟩ fun h => ?_
  rw [hl, Option.any_some, hlink] at h
  cases h

/-- What the letter of a line and its last column make of an object. -/
theorem cut_fileType {t : Tree} {q : PathBuf} {kind lkind : RowKind} {size lsize : Nat}
    (hl : t.lstat q = some (.row lkind lsize)) (hs : t.stat q = some (.row kind size)) {c : Cut}
    (hk : c.kind = lkind.letter) :
    (c.shown.2 = none ∧ c.fileType = if kind = .directory then .directory else .file) ↔
      ((t.lstat q).any Object.isLink = true → c.shown.2 = none ∧ kind ≠ .directory) := by
  cases lkind with
  | symlink target =>
    have hlink : (t.lstat q).any Object.isLink = true := by rw [hl]; rfl
    have hd : c.kind ≠ 'd' := by rw [hk]; simp [RowKind.letter]
    have hnone : c.shown.2 = none → c.fileType = .file := fun h => by
      unfold Cut.fileType
      rw [h, if_neg hd]
      rfl
    constructor
    · rintro ⟨h, htype⟩ -
      refine ⟨h, fun hkind => ?_⟩
      rw [hnone h, if_pos hkind] at htype
      cases htype
    · intro h
      obtain ⟨h, hkind⟩ := h hlink
      exact ⟨h, by rw [hnone h, if_neg hkind]⟩
  | regular => exact cut_fileType_plain hl hs hk (by simp)
  | directory => exact cut_fileType_plain hl hs hk (by simp)

/-- The name that a path shows of itself leads from its parent to it. -/
theorem samePath_push_sanitize {q dir : PathBuf} (habs : isAbsolute q = true) (hdir : parent q = some dir) :
    SamePath (push dir (sanitize q)) q := by
  unfold sanitize
  cases hn : fileName q with
  | none =>
    show components (push dir q) = components q
    unfold push
    rw [if_pos habs]
  | some n =>
    obtain ⟨hdabs, c, hc⟩ := components_parent habs hdir
    have hlast := fileName_eq_some.1 hn
    rw [hc, List.getLast?_concat] at hlast
    cases hlast
    show components (push dir n) = components q
    rw [components_push_name hdabs (isName_of_fileName hn), hc]

/-- What is no link is told of rightly when its own columns are at the last place and its path does not end
in white space. -/
theorem ReadsSame.of_last {K : Classes} {t : Tree} {q dir : PathBuf} (habs : isAbsolute q = true)
    (hdir : parent q = some dir) {kind : RowKind} {k : Columns} (hl : t.lstat q = some (.row kind k.size))
    (hkind : ∀ target, kind ≠ .symlink target) (hsize : k.size < UInt64.size) (hflag : k.flag = none)
    (hshort : k.clock.Short) (hn : '\n' ∉ q) (hend : ∀ c, q.getLast? = some c → isWhite c = false)
    (hlast : (k.cut kind.letter q).LastPlace K) : ReadsSame K t q (trim (k.line kind.letter q ++ ['\n'])) := by
  have hqne : q ≠ [] := isAbsolute_ne_nil habs
  have htrim : trimEnd q = q := by
    have h := trimEnd_append (b := []) blank_nil hend
    rwa [List.append_nil] at h
  have hletter : isWhite kind.letter = false := by cases kind <;> rfl
  have hlink : Object.isLink (.row kind k.size) = false := by
    cases kind with
    | symlink target => exact absurd rfl (hkind target)
    | _ => rfl
  have hshown : (k.cut kind.letter q).shown = (q, none) := by
    unfold Cut.shown
    rw [if_neg]
    · rfl
    · cases kind with
      | symlink target => exact absurd rfl (hkind target)
      | _ => simp [Columns.cut, RowKind.letter]
  have hhead : ∀ x, q.head? = some x → isWhite x = false := by
    intro x hx
    unfold isAbsolute at habs
    rw [hx] at habs
    obtain rfl : x = '/' := by simpa using habs
    decide
  rw [k.trim_line hletter (by rwa [htrim]), htrim]
  refine ⟨dir, kind, k.size, hdir, t.stat_self q _ hl hlink, k.cut kind.letter q,
    Columns.cut_valid hshort kind.typeLetter_letter ⟨hn, hqne⟩, Columns.cut_text hflag _ _, hlast,
      Or.inl hhead, ?_, ?_, ?_⟩
  · intro h
    rw [hl, Option.any_some, hlink] at h
    cases h
  · have hparse : parseU64 (decimal k.size) = some (UInt64.ofNatLT k.size hsize) := by
      refine parseU64_eq_some.2 ?_
      rw [UInt64.toNat_ofNatLT]
      exact parseUnsigned_decimal _
    show ((parseU64 (decimal k.size)).getD 0).toNat = k.size
    rw [hparse]
    exact UInt64.toNat_ofNatLT ..
  · unfold Cut.entryName
    rw [hshown]
    exact samePath_push_sanitize habs hdir

section
variable {σ₁ σ₂ ω : Type} {M : Sh.Machine ω} {world : σ₁ → ω} {H₁ : Handler Ssh σ₁} {H₂ : Handler Ssh σ₂}
  {tree₁ : ω → Tree} {tree₂ : σ₂ → Tree} {L : Libs}

/-- **Two `stat`s of the same path that succeed agree exactly when the line of `ls` tells of what the path
leads to.** -/
theorem stat_agree_iff (hH : Hosts M world H₁) (hM : ShowsTree M tree₁) (hT : TellsStat H₂ tree₂) {path q : PathBuf}
    {f₁ f₂ : File} {st₁ st₁' : St Ssh ScpFs σ₁} {st₂ st₂' : St Ssh SftpFs σ₂}
    (hq₁ : absolutize st₁.self.wrkdir path = q) (hq₂ : absolutize st₂.self.wrkdir path = q)
    (habs : isAbsolute q = true) (hplain : Sh.Plain q) (htree : tree₁ (world st₁.env) = tree₂ st₂.env)
    (h₁ : ScpFs.stat L path H₁ st₁ = (.ok f₁, st₁')) (h₂ : SftpFs.stat path H₂ st₂ = (.ok f₂, st₂')) :
    SameStat f₁ f₂ ↔ ReadsSame L.classes (tree₂ st₂.env) q (trim (lsReply M tree₁ (world st₁.env) q)) := by
  subst hq₁
  obtain ⟨dir, env, hdir, hparse⟩ := ScpFs.stat_hosts hH hM habs hplain h₁
  obtain ⟨kind, size, hstat, hpath, hsymlink, hsize, htype⟩ := SftpFs.stat_tree hT h₂
  rw [hq₂] at hstat hpath
  generalize absolutize st₁.self.wrkdir path = q at *
  obtain ⟨c, hc, rfl, -⟩ := reads_of_parse hparse
  -- the path is something, and no special file
  obtain ⟨lkind, lsize, hl⟩ : ∃ lkind lsize, (tree₁ (world st₁.env)).lstat q = some (.row lkind lsize) := by
    cases ho : (tree₁ (world st₁.env)).lstat q with
    | none =>
      have htext := hc.text
      unfold lsReply at htext
      rw [hM.absent _ _ ho] at htext
      cases htext
    | some o =>
      cases o with
      | row lkind lsize => exact ⟨lkind, lsize, rfl⟩
      | special letter other => exact absurd hc.text (hM.no_cut_special ho hc.valid)
  have hn : '\n' ∉ trim (lsReply M tree₁ (world st₁.env) q) := hM.newline_reply fun letter other h => by
    rw [hl] at h
    cases h
  have hk := hM.kind_of_text hl hc.text
  rw [htree] at hl
  have htypes := cut_fileType hl hstat hk
  constructor
  · intro h
    have hpath' := h.path
    rw [hpath] at hpath'
    have hshown : c.shown.2 = none := h.symlink.trans hsymlink
    have hsize' : ((parseU64 c.size).getD 0).toNat = size := by rw [← hsize, ← h.size]; rfl
    exact ⟨dir, kind, size, hdir, hstat, c, hc.valid, hc.text, hc.lastPlace hn, hc.snug,
      htypes.1 ⟨hshown, h.fileType.trans htype⟩, hsize', hpath'⟩
  · rintro ⟨dir', kind', size', hdir', hstat', d, hd, ht, hlast, hsnug, hlink, hdsize, hdpath⟩
    rw [hdir] at hdir'
    cases hdir'
    rw [hstat] at hstat'
    cases hstat'
    obtain ⟨-, hshown⟩ := entryName_of_last hc hn hd ht hlast hsnug
    have hcsize : c.size = d.size := by
      have hc' : Reads L.classes d.text c := ht ▸ hc
      exact (hc'.at_last (ht ▸ hn) hd hlast).1
    rw [← hshown] at hlink
    obtain ⟨hnone, hctype⟩ := htypes.2 hlink
    refine ⟨?_, hctype.trans htype.symm, hnone.trans hsymlink.symm, ?_⟩
    · rw [hpath]
      show SamePath (push dir c.entryName) q
      unfold Cut.entryName at hdpath ⊢
      rwa [hshown]
    · refine UInt64.toNat_inj.1 ?_
      rw [hsize, ← hdsize, ← hcsize]
      rfl

end

/-! ## A file, and a link to it -/

/-- The answer to a STAT request on a tree. -/
def tellStat (t : Tree) (q : PathBuf) : Except SshError FileStat :=
  match t.stat q with
  | some (.row kind size) =>
    if size < UInt64.size then
      .ok ⟨some (UInt64.ofNat size), none, none, some (if kind = .directory then 0o040755 else 0o100644), none, none⟩
    else .error ⟨.sftp 4, []⟩
  | _ => .error ⟨.sftp 2, []⟩

theorem site_tellsStat {ω : Type} (M : Sh.Machine ω) (t : Tree) (setstat : ω → PathBuf → FileStat → ω) :
    TellsStat (site M (fun _ => tellStat t) setstat) fun _ => t := by
  intro sftp q attrs env h
  have h : tellStat t q = .ok attrs := h
  unfold tellStat at h
  split at h
  · rename_i kind size hstat
    split at h
    · rename_i hsize
      cases h
      refine ⟨kind, size, hstat, ?_, ?_, ?_⟩
      · unfold FileStat.isSymlink FileStat.fileTypeBits
        by_cases hkind : kind = .directory <;> simp only [hkind, ↓reduceIte, Option.getD_some] <;> decide
      · unfold FileStat.isDir FileStat.fileTypeBits
        by_cases hkind : kind = .directory <;> simp only [hkind, ↓reduceIte, Option.getD_some] <;> decide
      · rw [Option.map_some, UInt64.toNat_ofNat_of_lt' hsize]
    · cases h
  · cases h

def sampleSite : Handler Ssh (Unit × Str) := site sampleMachine (fun _ => tellStat sampleTree) fun w _ _ => w

def sampleScp : St Ssh ScpFs (Unit × Str) := ⟨⟨some ⟨0⟩, ['/'], SshOpts.new "h".toList⟩, ((), []), []⟩

theorem sampleLine_a : lsReply sampleMachine (fun _ => sampleTree) () "/srv/a".toList =
    plainRow.toColumns.line '-' "/srv/a".toList ++ ['\n'] := by decide

def sampleSftp : St Ssh SftpFs (Unit × Str) := ⟨⟨some ⟨0⟩, some ⟨0⟩, ['/'], SshOpts.new "h".toList⟩, ((), []), []⟩

/-- Both tell of the file. -/
theorem stat_agree_file : ∃ f₁ f₂ st₁ st₂, ScpFs.stat sampleLibs "/srv/a".toList sampleSite sampleScp = (.ok f₁, st₁) ∧
    SftpFs.stat "/srv/a".toList sampleSite sampleSftp = (.ok f₂, st₂) ∧ SameStat f₁ f₂ := by
  have hserves : Serves sampleMachine Prod.fst sampleSite := site_serves sampleMachine _ _
  have hlast : (plainRow.toColumns.cut '-' "/srv/a".toList).LastPlace Classes.ascii :=
    Columns.lastPlace_of_no_digit (k := plainRow.toColumns) rfl rfl ⟨by decide, by decide⟩ (by decide)
  have hreads : ReadsSame Classes.ascii sampleTree "/srv/a".toList
      (trim (lsReply sampleMachine (fun _ => sampleTree) () "/srv/a".toList)) := by
    rw [sampleLine_a]
    exact @ReadsSame.of_last _ sampleTree "/srv/a".toList "/srv".toList (by decide) (by decide) .regular
      plainRow.toColumns (by decide) (by simp) (by decide) rfl rfl (by decide) (by intro c hc; cases hc; decide) hlast
  obtain ⟨f₁, st₁, h₁⟩ : ∃ f st', ScpFs.stat sampleLibs "/srv/a".toList sampleSite sampleScp = (.ok f, st') :=
    (@ScpFs.stat_ok_iff _ _ _ _ _ _ _ _ _ hserves sampleMachine_shows ⟨0⟩ rfl rfl (by decide)).2
      ⟨by decide, Columns.readable_of_no_digit (k := plainRow.toColumns) rfl rfl (c := .regular) ⟨by decide, by decide⟩
        ⟨by intro c hc; cases hc; decide, by intro c hc; cases hc; decide⟩ (by decide) (by decide)⟩
  obtain ⟨f₂, st₂, h₂⟩ : ∃ f st', SftpFs.stat "/srv/a".toList sampleSite sampleSftp = (.ok f, st') := ⟨_, _, rfl⟩
  exact ⟨f₁, f₂, st₁, st₂, h₁, h₂, (stat_agree_iff hserves.toHosts sampleMachine_shows
    (site_tellsStat sampleMachine sampleTree _) rfl rfl (by decide) (by decide) rfl h₁ h₂).2 hreads⟩

/-- What SCP tells of the link. -/
def linkEntry : File where
  path := "/srv/k".toList
  metadata := { (plainEntry ['k']).metadata with fileType := .symlink, symlink := some ['a'] }

/-- What SFTP tells of it. -/
def targetEntry : File where
  path := "/srv/k".toList
  metadata := { Metadata.ofSize 1 with mode := some (.ofU32 0o100644) }

set_option maxRecDepth 20000 in
theorem stat_differ_link :
    (ScpFs.stat sampleLibs "/srv/k".toList sampleSite sampleScp).1 = .ok linkEntry ∧
      (SftpFs.stat "/srv/k".toList sampleSite sampleSftp).1 = .ok targetEntry ∧ ¬ SameStat linkEntry targetEntry := by
  refine ⟨by decide +kernel, by decide +kernel, ?_⟩
  intro h
  exact absurd h.fileType (by decide)

end RemotefsSsh
