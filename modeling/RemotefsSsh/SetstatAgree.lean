import RemotefsSsh.FileStats
import RemotefsSsh.Lib.Calendar
import RemotefsSsh.Listing
import RemotefsSsh.Setstat

/-!
# `setstat` of the two clients (ssh/scp.rs:379-418, ssh/sftp.rs:253-266)

Over SCP a `setstat` is a command for each attribute that is given; over SFTP it is one record, and
`metadata_to_filestat` puts the size into it whatever the caller wants to change. From the same file
the two lead to the same file exactly when that size is the one the file has (`setstat_agree_iff`).
-/

namespace RemotefsSsh

open Utf8 UnixPath Effect Prog

/-! ## Files and their attributes -/

/-- A regular file. -/
structure FileState where
  content : List UInt8
  mode : UInt32
  owner : UInt32
  group : UInt32
  atime : Int
  mtime : Int
deriving DecidableEq, Repr

/-- Cut off, or filled up with zeros. -/
def resize (n : Nat) (content : List UInt8) : List UInt8 := content.take n ++ List.replicate (n - content.length) 0

theorem resize_eq_iff {n : Nat} {content : List UInt8} : resize n content = content ↔ n = content.length := by
  unfold resize
  constructor
  · intro h
    have hlen := congrArg List.length h
    simp only [List.length_append, List.length_take, List.length_replicate] at hlen
    omega
  · rintro rfl
    simp

namespace FileState

/-- The file with the fields of the record that are given. -/
def setFields (s : FileStat) (f : FileState) : FileState where
  content := (s.size.map fun n => resize n.toNat f.content).getD f.content
  mode := s.perm.getD f.mode
  owner := s.uid.getD f.owner
  group := s.gid.getD f.group
  atime := (s.atime.map fun t => (t.toNat : Int)).getD f.atime
  mtime := (s.mtime.map fun t => (t.toNat : Int)).getD f.mtime

/-- The file with the attributes that are given. -/
def setAttrs (m : Metadata) (f : FileState) : FileState where
  content := f.content
  mode := (m.mode.map UnixPex.toU32).getD f.mode
  owner := m.uid.getD f.owner
  group := m.gid.getD f.group
  atime := (m.accessed.map SystemTime.secs).getD f.atime
  mtime := (m.modified.map SystemTime.secs).getD f.mtime

end FileState

/-! ## Servers that hold files -/

/-- What a utility that `setstat` runs makes of a file, on a server in UTC. -/
def effect : ShellCmd → Option (FileState → FileState)
  | .existsPath _ => some id
  | .chmod mode _ => some fun f => { f with mode := mode }
  | .chown user gid _ => some fun f => { f with owner := user, group := gid.getD f.group }
  | .touchAccess time _ => (Calendar.readStamp time).map fun t f => { f with atime := t }
  | .touchModify time _ => (Calendar.readStamp time).map fun t f => { f with mtime := t }
  | _ => none

/-- The utilities print nothing, and one that exits with 0 did what it is for. A test changes nothing. -/
structure SetsAttributes {ω : Type} (M : Sh.Machine ω) (file : ω → PathBuf → Option FileState) : Prop where
  silent : ∀ w c, (effect c).isSome = true → (M.utility w M.home c.words).1 = []
  test : ∀ w p q, file (M.utility w M.home (ShellCmd.existsPath p).words).2.2 q = file w q
  sets : ∀ w c g q, effect c = some g → c.paths = [q] → (M.utility w M.home c.words).2.1 = 0 →
    file (M.utility w M.home c.words).2.2 q = (file w q).map g

/-- A SETSTAT request that succeeds sets the fields it gives. -/
def SetsFields {σ : Type} (H : Handler Ssh σ) (file : σ → PathBuf → Option FileState) : Prop :=
  ∀ sftp q s env, (H.reply (.setstat sftp q s) env).1 = .ok () →
    file (H.reply (.setstat sftp q s) env).2 q = (file env q).map (FileState.setFields s)

/-- `%Y%m%d%H%M.%S` of the years from 1970 to 9999. -/
def Chrono.Stamps (C : Chrono) : Prop :=
  ∀ t : SystemTime, 0 ≤ t.secs → t.secs < Calendar.stampEnd →
    C.formatUtc t "%Y%m%d%H%M.%S".toList = some (Calendar.stamp t.secs.toNat)

theorem ordinary_stamp (t : Nat) : Calendar.stamp t ≠ [] ∧ ∀ c ∈ Calendar.stamp t, Sh.ordinary c = true := by
  have hfixed : ∀ k n, ∀ c ∈ Calendar.fixed k n, Sh.ordinary c = true := fun k n c hc =>
    ordinary_of_isDigit (List.all_eq_true.1 (Calendar.isDigit_fixed k n) c hc)
  have hdot : Sh.ordinary '.' = true := by decide
  unfold Calendar.stamp
  refine ⟨by simp, fun c hc => ?_⟩
  simp only [List.mem_append, List.mem_cons] at hc
  rcases hc with hc | hc | hc | hc | hc | rfl | hc
  · exact hfixed _ _ c hc
  · exact hfixed _ _ c hc
  · exact hfixed _ _ c hc
  · exact hfixed _ _ c hc
  · exact hfixed _ _ c hc
  · exact hdot
  · exact hfixed _ _ c hc

/-! ## Over SCP -/

namespace ScpFs

/-- The record is as it was, and the file at `q` was changed by `g`. -/
structure Turned {σ ω : Type} (world : σ → ω) (file : ω → PathBuf → Option FileState) (q : PathBuf)
    (g : FileState → FileState) (st st' : St Ssh ScpFs σ) : Prop where
  self : st'.self = st.self
  file : file (world st'.env) q = (file (world st.env) q).map g

section
variable {σ ω : Type} {M : Sh.Machine ω} {world : σ → ω} {file : ω → PathBuf → Option FileState} {H : Handler Ssh σ}
  {L : Libs} {q : PathBuf} {g g' : FileState → FileState} {st st₁ st' : St Ssh ScpFs σ}

theorem Turned.refl (st : St Ssh ScpFs σ) : Turned world file q id st st := ⟨rfl, by simp⟩

theorem Turned.trans (h : Turned world file q g st st₁) (h' : Turned world file q g' st₁ st') :
    Turned world file q (g' ∘ g) st st' := by
  refine ⟨h'.self.trans h.self, ?_⟩
  rw [h'.file, h.file, Option.map_map]

theorem assertStatCommand_turned (hH : Hosts M world H) (hM : SetsAttributes M file) (hq : Sh.Plain q) {c : ShellCmd}
    (hc : effect c = some g) (hrc : c.withRc = true) (ha : c.AroundPaths) (hpaths : c.paths = [q])
    (h : assertStatCommand c H st = (.ok (), st')) : Turned world file q g st st' := by
  have hcalls : c.Calls M := ShellCmd.calls hrc ha (by rw [hpaths]; simpa using hq) fun w =>
    hM.silent w c (by rw [hc]; rfl)
  obtain ⟨hself, hcode, hworld⟩ := runRc_hosts hH hcalls h
  exact ⟨hself, by rw [hworld]; exact hM.sets _ c g q hc hpaths hcode⟩

theorem ifSome_turned {α : Type} {o : Option α} {f : α → Remote ScpFs σ Unit} {g : α → FileState → FileState}
    (hf : ∀ a, o = some a → ∀ st st', f a H st = (.ok (), st') → Turned world file q (g a) st st')
    (h : ifSome o f H st = (.ok (), st')) : Turned world file q ((o.map g).getD id) st st' := by
  cases o with
  | none => cases h; exact .refl st
  | some a => exact hf a rfl st st' h

/-- A `touch` at a time that can be written. -/
theorem touch_turned (hH : Hosts M world H) (hM : SetsAttributes M file) (hL : L.chrono.Stamps) (hq : Sh.Plain q)
    {t : SystemTime} (h0 : 0 ≤ t.secs) (hend : t.secs < Calendar.stampEnd) {c : Str → ShellCmd}
    {put : Int → FileState → FileState} (hc : ∀ time, effect (c time) = (Calendar.readStamp time).map put)
    (hrc : ∀ time, (c time).withRc = true) (hpaths : ∀ time, (c time).paths = [q])
    (ha : ∀ n, (c (Calendar.stamp n)).AroundPaths)
    (h : (do assertStatCommand (c (← touchTime L t))) H st = (.ok (), st')) :
    Turned world file q (put t.secs) st st' := by
  have htime : (touchTime L t : Remote ScpFs σ Str) H st = (.ok (Calendar.stamp t.secs.toNat), st) := by
    rw [touchTime, ofOut_run, fmtTimeUtc, hL t h0 hend]
  rw [bind_ok htime] at h
  refine assertStatCommand_turned hH hM hq ?_ (hrc _) (ha _) (hpaths _) h
  rw [hc, Calendar.readStamp_stamp (by omega), Int.toNat_of_nonneg h0]
  rfl

/-- One attribute after the other is all of them. -/
theorem composed_eq_setAttrs {m : Metadata} (hgroup : m.gid.isSome = true → m.uid.isSome = true) (f : FileState) :
    ((m.modified.map fun t f => { f with mtime := t.secs }).getD id <|
      (m.accessed.map fun t f => { f with atime := t.secs }).getD id <|
      (m.uid.map fun user f => { f with owner := user, group := m.gid.getD f.group }).getD id <|
      (m.mode.map fun mode f => { f with mode := mode.toU32 }).getD id f) = FileState.setAttrs m f := by
  obtain ⟨accessed, created, fileType, gid, mode, modified, size, symlink, uid⟩ := m
  cases uid with
  | some user => cases mode <;> cases accessed <;> cases modified <;> rfl
  | none =>
    cases gid with
    | some group => cases hgroup rfl
    | none => cases mode <;> cases accessed <;> cases modified <;> rfl

/-- A `setstat` sets the attributes that are given, if a group comes with a user. -/
theorem setstat_turned (hH : Hosts M world H) (hM : SetsAttributes M file) (hL : L.chrono.Stamps) {path : PathBuf}
    (hq : Sh.Plain (absolutize st.self.wrkdir path))
    (hq' : Sh.Plain (absolutize st.self.wrkdir (absolutize st.self.wrkdir path))) {m : Metadata}
    (hgroup : m.gid.isSome = true → m.uid.isSome = true)
    (htimes : ∀ t, m.accessed = some t ∨ m.modified = some t → 0 ≤ t.secs ∧ t.secs < Calendar.stampEnd)
    (h : setstat L path m H st = (.ok (), st')) :
    Turned world file (absolutize st.self.wrkdir path) (FileState.setAttrs m) st st' := by
  unfold setstat at h
  obtain ⟨_, st₁, h₁, h⟩ := bind_eq_ok h
  obtain ⟨hself₁, hworld₁, -⟩ := checkConnection_looks hH h₁
  have hcheck : Turned world file (absolutize st.self.wrkdir path) id st st₁ := ⟨hself₁, by rw [hworld₁]; simp⟩
  rw [bind_ok self_run, hself₁] at h
  obtain ⟨b, st₂, h₂, h⟩ := bind_eq_ok h
  cases b with
  | false => cases h
  | true =>
    rw [if_pos rfl] at h
    have hcalls : (ShellCmd.existsPath (absolutize st₁.self.wrkdir (absolutize st.self.wrkdir path))).Calls M :=
      ShellCmd.calls rfl trivial (by rw [hself₁]; simpa [ShellCmd.paths] using hq') fun w => hM.silent w _ rfl
    obtain ⟨hself₂, -, hworld₂⟩ := existsOrFalse_hosts hH hcalls h₂
    have htest : Turned world file (absolutize st.self.wrkdir path) id st₁ st₂ :=
      ⟨hself₂, by rw [hworld₂, hM.test]; simp⟩
    obtain ⟨_, st₃, h₃, h⟩ := bind_eq_ok h
    obtain ⟨_, st₄, h₄, h⟩ := bind_eq_ok h
    obtain ⟨_, st₅, h₅, h₆⟩ := bind_eq_ok h
    have hchmod := ifSome_turned (fun mode _ s s' => assertStatCommand_turned hH hM hq
      (c := .chmod (UnixPex.toU32 mode) _) rfl rfl trivial rfl) h₃
    have hchown := ifSome_turned (fun user _ s s' => assertStatCommand_turned hH hM hq
      (c := .chown user m.gid _) rfl rfl trivial rfl) h₄
    have haccess := ifSome_turned (fun t ht s s' => touch_turned hH hM hL hq (htimes t (Or.inl ht)).1
      (htimes t (Or.inl ht)).2 (c := (.touchAccess · _)) (fun _ => rfl) (fun _ => rfl) (fun _ => rfl) ordinary_stamp) h₅
    have hmodify := ifSome_turned (fun t ht s s' => touch_turned hH hM hL hq (htimes t (Or.inr ht)).1
      (htimes t (Or.inr ht)).2 (c := (.touchModify · _)) (fun _ => rfl) (fun _ => rfl) (fun _ => rfl) ordinary_stamp) h₆
    have hall := hcheck.trans (htest.trans (((hchmod.trans hchown).trans haccess).trans hmodify))
    refine ⟨hall.self, hall.file.trans (congrArg (Option.map · _) (funext fun f => ?_))⟩
    exact composed_eq_setAttrs hgroup f

end

end ScpFs

/-! ## Over SFTP -/

namespace SftpFs

section
variable {σ : Type} {H : Handler Ssh σ} {st st' : St Ssh SftpFs σ}

/-- A `setstat` sends its one record. -/
theorem setstat_eq_ok {path : PathBuf} {m : Metadata} (h : setstat path m H st = (.ok (), st')) :
    ∃ sftp, (H.reply (.setstat sftp (absolutize st.self.wrkdir path) (metadataToFilestat m)) st.env).1 = .ok () ∧
      st'.env = (H.reply (.setstat sftp (absolutize st.self.wrkdir path) (metadataToFilestat m)) st.env).2 := by
  obtain ⟨sftp, -, h⟩ := withSftp_eq_ok h
  obtain ⟨hreply, henv, -, -⟩ := ask_ok (orKind_eq_ok h)
  exact ⟨sftp, hreply, henv⟩

/-- The fields of the record are the attributes that are given, and the size. -/
theorem setFields_metadataToFilestat {m : Metadata}
    (htimes : ∀ t, m.accessed = some t ∨ m.modified = some t → 0 ≤ t.secs) (f : FileState) :
    f.setFields (metadataToFilestat m) = { f.setAttrs m with content := resize m.size.toNat f.content } := by
  have htime : ∀ o : Option SystemTime, (∀ t, o = some t → 0 ≤ t.secs) →
      (o.bind SystemTime.secsSinceEpoch).map (fun u => (u.toNat : Int)) = o.map SystemTime.secs := by
    intro o ho
    cases o with
    | none => rfl
    | some t => exact toNat_secsSinceEpoch (ho t rfl)
  unfold FileState.setFields FileState.setAttrs metadataToFilestat
  dsimp only
  rw [htime _ fun t ht => htimes t (Or.inl ht), htime _ fun t ht => htimes t (Or.inr ht)]
  rfl

end

end SftpFs

/-- **From the same file, a `setstat` that succeeds on both clients leads to the same file exactly when the
size it was given is the length of the file.** -/
theorem setstat_agree_iff {σ₁ σ₂ ω : Type} {M : Sh.Machine ω} {world : σ₁ → ω} {H₁ : Handler Ssh σ₁}
    {H₂ : Handler Ssh σ₂} {file₁ : ω → PathBuf → Option FileState} {file₂ : σ₂ → PathBuf → Option FileState} {L : Libs}
    (hH : Hosts M world H₁) (hM : SetsAttributes M file₁) (hS : SetsFields H₂ file₂) (hL : L.chrono.Stamps)
    {path q : PathBuf} {m : Metadata} {f : FileState} {st₁ st₁' : St Ssh ScpFs σ₁} {st₂ st₂' : St Ssh SftpFs σ₂}
    (hq₁ : absolutize st₁.self.wrkdir path = q) (hq₂ : absolutize st₂.self.wrkdir path = q)
    (hplain : Sh.Plain q) (hplain' : Sh.Plain (absolutize st₁.self.wrkdir q))
    (hf₁ : file₁ (world st₁.env) q = some f) (hf₂ : file₂ st₂.env q = some f)
    (hgroup : m.gid.isSome = true → m.uid.isSome = true)
    (htimes : ∀ t, m.accessed = some t ∨ m.modified = some t → 0 ≤ t.secs ∧ t.secs < Calendar.stampEnd)
    (h₁ : ScpFs.setstat L path m H₁ st₁ = (.ok (), st₁')) (h₂ : SftpFs.setstat path m H₂ st₂ = (.ok (), st₂')) :
    file₁ (world st₁'.env) q = file₂ st₂'.env q ↔ m.size.toNat = f.content.length := by
  subst hq₁
  have hscp := (ScpFs.setstat_turned hH hM hL hplain hplain' hgroup htimes h₁).file
  rw [hf₁, Option.map_some] at hscp
  obtain ⟨sftp, hreply, henv⟩ := SftpFs.setstat_eq_ok h₂
  rw [hq₂] at hreply henv
  have hsftp := hS sftp _ _ _ hreply
  rw [← henv, hf₂, Option.map_some, SftpFs.setFields_metadataToFilestat fun t ht => (htimes t ht).1] at hsftp
  rw [hscp, hsftp, Option.some.injEq, ← resize_eq_iff]
  constructor
  · intro h
    exact (congrArg FileState.content h).symm
  · intro h
    rw [h]
    rfl

/-! ## A server with one file -/

def theFile : PathBuf := "/a.sh".toList

/-- `touch -t` with one of the flags `-a` and `-m`. -/
def touchFile (f : FileState) (which time q : Str) : Str × UInt8 × FileState :=
  if q = theFile then
    match Calendar.readStamp time with
    | some t => ([], 0, if which = "-a".toList then { f with atime := t } else { f with mtime := t })
    | none => ([], 1, f)
  else ([], 1, f)

/-- The world is the file `/a.sh`. It can be tested for and touched. -/
def touchMachine : Sh.Machine FileState where
  home := ['/']
  enter _ _ dir := some dir
  utility f _ ws :=
    match ws with
    | [cmd, flag, q] => ([], if cmd = "test".toList ∧ flag = "-e".toList ∧ q = theFile then 0 else 1, f)
    | [cmd, which, flag, time, q] =>
      if cmd = "touch".toList ∧ flag = "-t".toList then touchFile f which time q else ([], 1, f)
    | _ => ([], 127, f)

def fileAt (f : FileState) (q : PathBuf) : Option FileState := if q = theFile then some f else none

theorem touchFile_silent (f : FileState) (which time q : Str) : (touchFile f which time q).1 = [] := by
  unfold touchFile
  split
  · split <;> rfl
  · rfl

theorem touchFile_ok {f : FileState} {which time q : Str} (h : (touchFile f which time q).2.1 = 0) :
    q = theFile ∧ ∃ t, Calendar.readStamp time = some t ∧
      (touchFile f which time q).2.2 =
        if which = "-a".toList then { f with atime := t } else { f with mtime := t } := by
  unfold touchFile at h ⊢
  by_cases hq : q = theFile
  · rw [if_pos hq] at h ⊢
    cases ht : Calendar.readStamp time with
    | none => rw [ht] at h; cases h
    | some t => exact ⟨hq, t, rfl, rfl⟩
  · rw [if_neg hq] at h
    cases h

theorem touchMachine_touch (f : FileState) (which time q : Str) :
    touchMachine.utility f touchMachine.home ["touch".toList, which, "-t".toList, time, q] =
      touchFile f which time q := by
  show (if "touch".toList = "touch".toList ∧ "-t".toList =
    "-t".toList then touchFile f which time q else ([], 1, f)) = _
  rw [if_pos ⟨rfl, rfl⟩]

theorem touchMachine_sets : SetsAttributes touchMachine fileAt where
  silent w c hc := by
    unfold touchMachine
    dsimp only
    split
    · rfl
    · split
      · exact touchFile_silent ..
      · rfl
    · rfl
  test w p q := rfl
  sets w c g q hc hq hcode := by
    cases c with
    | existsPath p =>
      cases hc
      exact Option.map_id'.symm
    | chmod v p => cases hcode
    | chown user gid p => cases hcode
    | touchAccess time p =>
      obtain rfl : p = q := List.singleton_inj.1 hq
      have hwords : (ShellCmd.touchAccess time p).words = ["touch".toList, "-a".toList, "-t".toList, time, p] := rfl
      rw [hwords, touchMachine_touch] at hcode ⊢
      obtain ⟨hp, t, ht, hafter⟩ := touchFile_ok hcode
      rw [effect, ht] at hc
      cases hc
      rw [hafter, if_pos rfl]
      simp [fileAt, hp]
    | touchModify time p =>
      obtain rfl : p = q := List.singleton_inj.1 hq
      have hwords : (ShellCmd.touchModify time p).words = ["touch".toList, "-m".toList, "-t".toList, time, p] := rfl
      rw [hwords, touchMachine_touch] at hcode ⊢
      obtain ⟨hp, t, ht, hafter⟩ := touchFile_ok hcode
      rw [effect, ht] at hc
      cases hc
      rw [hafter, if_neg (by decide)]
      simp [fileAt, hp]
    | _ => cases hc

/-- `chrono`, as far as the stamps of the times from 1970 on. -/
def utcLibs : Libs where
  classes := Classes.ascii
  chrono :=
    { sampleLibs.chrono with
      formatUtc := fun t fmt =>
        if fmt = "%Y%m%d%H%M.%S".toList ∧ 0 ≤ t.secs then some (Calendar.stamp t.secs.toNat) else none }

theorem utcLibs_stamps : utcLibs.chrono.Stamps := fun _ h0 _ => if_pos ⟨rfl, h0⟩

def touchServer : Handler Ssh (FileState × Str) :=
  site touchMachine (fun _ _ => .ok ⟨none, none, none, some 0o100644, none, none⟩) fun f q s =>
    if q = theFile then f.setFields s else f

theorem touchServer_sets : SetsFields touchServer fun env => fileAt env.1 := by
  intro sftp q s env hok
  show fileAt (if q = theFile then env.1.setFields s else env.1) q = _
  unfold fileAt
  by_cases hq : q = theFile
  · simp [hq]
  · simp [hq]

/-- `echo 5` and a newline. -/
def theContent : FileState := ⟨[0x65, 0x63, 0x68, 0x6f, 0x20, 0x35, 0x0a], 0o644, 1000, 1000, 1700000000, 1700000000⟩

def scpAt (f : FileState) : St Ssh ScpFs (FileState × Str) :=
  ⟨⟨some ⟨0⟩, ['/'], SshOpts.new "h".toList⟩, (f, []), []⟩

def sftpAt (f : FileState) : St Ssh SftpFs (FileState × Str) :=
  ⟨⟨some ⟨0⟩, some ⟨0⟩, ['/'], SshOpts.new "h".toList⟩, (f, []), []⟩

/-- Both times set to the epoch, with the size of the file. -/
theorem setstat_agree_epoch :
    fileAt (ScpFs.setstat utcLibs theFile
        { Metadata.ofSize 7 with accessed := some .UNIX_EPOCH, modified := some .UNIX_EPOCH }
        touchServer (scpAt theContent)).2.env.1 theFile =
      fileAt (SftpFs.setstat theFile
        { Metadata.ofSize 7 with accessed := some .UNIX_EPOCH, modified := some .UNIX_EPOCH }
        touchServer (sftpAt theContent)).2.env.1 theFile := by
  have h₁ : (ScpFs.setstat utcLibs theFile
      { Metadata.ofSize 7 with accessed := some .UNIX_EPOCH, modified := some .UNIX_EPOCH }
      touchServer (scpAt theContent)).1 = .ok () := by decide +kernel
  have h₂ : (SftpFs.setstat theFile
      { Metadata.ofSize 7 with accessed := some .UNIX_EPOCH, modified := some .UNIX_EPOCH }
      touchServer (sftpAt theContent)).1 = .ok () := by decide +kernel
  refine (setstat_agree_iff (site_hosts touchMachine _ _) touchMachine_sets touchServer_sets utcLibs_stamps
    rfl rfl (by decide) (by decide) (f := theContent) rfl rfl (fun h => by cases h) ?_
      (Prod.ext h₁ rfl) (Prod.ext h₂ rfl)).2
    (by decide)
  rintro t (ht | ht) <;> · cases ht; decide

/-- Only the modification time is to change, and the size is left at 0: SFTP empties the file. -/
theorem setstat_empties_file :
    (ScpFs.setstat utcLibs theFile { Metadata.ofSize 0 with modified := some .UNIX_EPOCH } touchServer
        (scpAt theContent)).1 = .ok () ∧
      (SftpFs.setstat theFile { Metadata.ofSize 0 with modified := some .UNIX_EPOCH } touchServer
        (sftpAt theContent)).1 = .ok () ∧
      (ScpFs.setstat utcLibs theFile { Metadata.ofSize 0 with modified := some .UNIX_EPOCH } touchServer
        (scpAt theContent)).2.env.1 = { theContent with mtime := 0 } ∧
      (SftpFs.setstat theFile { Metadata.ofSize 0 with modified := some .UNIX_EPOCH } touchServer
        (sftpAt theContent)).2.env.1 = { theContent with mtime := 0, content := [] } ∧
      theContent.content ≠ [] := by
  refine ⟨by decide +kernel, by decide +kernel, by decide +kernel, by decide +kernel, by decide⟩

end RemotefsSsh
