import RemotefsSsh.LsPadding
import RemotefsSsh.Tree

/-!
# `list_dir` and then `stat` of an entry (ssh/scp.rs:302-364)

`list_dir` reads the row of an entry as it is, `stat` the trimmed line for its path. Both put size and
date at the last place, so where that is the row's own in both lines the two differ only in what is next to
the columns: padding hides a numeric owner or group in the listing, and trimming takes white space from
the end of the name (`list_stat_agree_iff`).
-/

namespace RemotefsSsh

open Utf8 UnixPath Effect Prog

namespace Row

/-- The columns as `ls` of the path alone prints them: only the day and the time are still padded. -/
def asked (r : Row) : Columns :=
  { r.toColumns with
    pads := fun
      | .day => r.pads .day
      | .clock => r.pads .clock
      | _ => 0 }

/-- The row as `list_dir` should read it. -/
def listedCut (r : Row) : Cut := r.toColumns.cut r.kind.letter (stripCr r.shown)

/-- The line for the path `q` as `stat` should read it. -/
def askedCut (r : Row) (q : PathBuf) : Cut := r.asked.cut r.kind.letter (trimEnd (r.kind.shown q))

/-- Both lines have their own columns at the last place, and the row has its own name behind them. -/
structure InPlace (K : Classes) (r : Row) (q : PathBuf) : Prop where
  no_flag : r.flag = none
  short : r.clock.Short
  owner_head : ∀ x, r.owner.head? = some x → isWhite x = false
  group_end : ∀ x, r.group.getLast? = some x → isWhite x = false
  name_head : ∀ x, r.name.head? = some x → isWhite x = false
  listed : r.listedCut.LastPlace K
  asked : (r.askedCut q).LastPlace K
  name : r.listedCut.entryName = r.name

/-- Neither the padding nor the trimming makes a difference. -/
structure Steady (r : Row) (q : PathBuf) : Prop where
  name : (r.askedCut q).entryName = r.name
  target : (r.askedCut q).shown.2 = r.listedCut.shown.2
  uid : r.pads .group = 0 ∧ r.pads .size ≤ 1 ∨ r.asked.uid = none
  gid : r.pads .size = 0 ∨ r.asked.gid = none

end Row

/-- The same path and metadata. -/
structure SameFile (f₁ f₂ : File) : Prop where
  path : SamePath f₁.path f₂.path
  fileType : f₁.metadata.fileType = f₂.metadata.fileType
  symlink : f₁.metadata.symlink = f₂.metadata.symlink
  size : f₁.metadata.size = f₂.metadata.size
  mode : f₁.metadata.mode = f₂.metadata.mode
  uid : f₁.metadata.uid = f₂.metadata.uid
  gid : f₁.metadata.gid = f₂.metadata.gid
  modified : f₁.metadata.modified = f₂.metadata.modified

/-! ## The two lines of a row -/

section
variable {K : Classes} {r : Row} {q : PathBuf} {c : Cut}

theorem Row.uid_steady (r : Row) :
    r.toColumns.uid = r.asked.uid ↔ r.pads .group = 0 ∧ r.pads .size ≤ 1 ∨ r.asked.uid = none := by
  have hasked : r.asked.uid = if r.group.any isWhite = false then parseU32 r.owner else none := by
    unfold Columns.uid
    refine if_congr ?_ rfl rfl
    constructor
    · rintro ⟨-, -, h⟩
      exact h
    · intro h
      exact ⟨rfl, Nat.zero_le 1, h⟩
  by_cases hpad : r.pads .group = 0 ∧ r.pads .size ≤ 1
  · have hlisted : r.toColumns.uid = if r.group.any isWhite = false then parseU32 r.owner else none := by
      unfold Columns.uid
      refine if_congr ?_ rfl rfl
      constructor
      · rintro ⟨-, -, h⟩
        exact h
      · intro h
        exact ⟨hpad.1, hpad.2, h⟩
    rw [hlisted, hasked]
    simp [hpad]
  · have hlisted : r.toColumns.uid = none := by
      unfold Columns.uid
      rw [if_neg]
      rintro ⟨h2, h3, -⟩
      exact hpad ⟨h2, h3⟩
    rw [hlisted, eq_comm, or_iff_right hpad]

theorem Row.gid_steady (r : Row) : r.toColumns.gid = r.asked.gid ↔ r.pads .size = 0 ∨ r.asked.gid = none := by
  have hasked : r.asked.gid = parseU32 (lastWord r.group) := if_pos rfl
  by_cases hpad : r.pads .size = 0
  · have hlisted : r.toColumns.gid = parseU32 (lastWord r.group) := if_pos hpad
    rw [hlisted, hasked]
    simp [hpad]
  · have hlisted : r.toColumns.gid = none := if_neg hpad
    rw [hlisted, eq_comm, or_iff_right hpad]

theorem stripCr_ne_nil {s : Str} (hs : s ≠ []) (h : ∀ x, s.head? = some x → isWhite x = false) : stripCr s ≠ [] := by
  intro hnil
  unfold stripCr at hnil
  split at hnil
  · rename_i hlast
    cases s with
    | nil => exact hs rfl
    | cons x xs =>
      cases xs with
      | nil =>
        cases hlast
        exact absurd (h '\r' rfl) (by decide)
      | cons y ys => cases hnil
  · exact hs hnil

theorem RowKind.head_shown {kind : RowKind} {name : Str} (hne : name ≠ []) {x : Char}
    (h : (kind.shown name).head? = some x) : name.head? = some x := by
  unfold shown at h
  split at h
  · rwa [List.head?_append_of_ne_nil _ hne] at h
  · exact h

theorem Row.InPlace.readAs_listed (h : r.InPlace K q) (hc : Reads K (stripCr r.line) c) :
    r.toColumns.ReadAs r.kind.letter (stripCr r.shown) c := by
  have hhead : ∀ x, r.shown.head? = some x → isWhite x = false := fun x hx =>
    h.name_head x (RowKind.head_shown r.name_text.2 hx)
  rw [r.stripCr_line] at hc
  exact Columns.readAs_of_last (k := r.toColumns) h.no_flag h.short r.kind.typeLetter_letter
    ⟨fun hm => r.newline_shown (stripCr_mem hm), stripCr_ne_nil r.shown_ne_nil hhead⟩
    (fun x hx => hhead x (head_stripCr hx)) h.owner_head h.group_end h.listed hc

theorem Row.trimEnd_shown (r : Row) (habs : isAbsolute q = true) :
    trimEnd (r.kind.shown q) ≠ [] ∧ ∀ x, (trimEnd (r.kind.shown q)).head? = some x → isWhite x = false := by
  have hslash : (r.kind.shown q).head? = some '/' := by
    unfold isAbsolute at habs
    have hq : q.head? = some '/' := by simpa using habs
    unfold RowKind.shown
    split
    · rw [List.head?_append_of_ne_nil _ (by rintro rfl; cases hq), hq]
    · exact hq
  obtain ⟨b, hsplit, hb, -⟩ := trimEnd_split (r.kind.shown q)
  have hne : trimEnd (r.kind.shown q) ≠ [] := by
    intro hnil
    rw [hnil, List.nil_append] at hsplit
    have := hb '/' (by rw [← hsplit]; exact List.mem_of_mem_head? hslash)
    revert this
    decide
  refine ⟨hne, fun x hx => ?_⟩
  rw [hsplit, List.head?_append_of_ne_nil _ hne, hx] at hslash
  cases hslash
  decide

/-- What `stat` reads of the line for the path. -/
theorem Row.trim_asked (r : Row) (habs : isAbsolute q = true) (hq : '\n' ∉ q) :
    trim (r.asked.line r.kind.letter (r.kind.shown q) ++ ['\n']) = r.asked.line r.kind.letter
      (trimEnd (r.kind.shown q)) ∧
      Txt (trimEnd (r.kind.shown q)) := by
  obtain ⟨hne, -⟩ := r.trimEnd_shown habs
  have hletter : isWhite r.kind.letter = false := by cases r.kind <;> rfl
  obtain ⟨b, hsplit, -⟩ := trimEnd_split (r.kind.shown q)
  refine ⟨r.asked.trim_line hletter hne, fun hm => RowKind.newline_shown hq r.target_text ?_, hne⟩
  rw [hsplit]
  exact List.mem_append_left _ hm

theorem Row.InPlace.readAs_asked (h : r.InPlace K q) (habs : isAbsolute q = true) (hq : '\n' ∉ q)
    (hc : Reads K (trim (r.asked.line r.kind.letter (r.kind.shown q) ++ ['\n'])) c) :
    r.asked.ReadAs r.kind.letter (trimEnd (r.kind.shown q)) c := by
  obtain ⟨htrim, htext⟩ := r.trim_asked habs hq
  rw [htrim] at hc
  exact Columns.readAs_of_last (k := r.asked) h.no_flag h.short r.kind.typeLetter_letter htext (r.trimEnd_shown habs).2
    h.owner_head h.group_end h.asked hc

theorem Row.InPlace.exists_reads (h : r.InPlace K q) (habs : isAbsolute q = true) (hq : '\n' ∉ q) :
    ∃ c, Reads K (trim (r.asked.line r.kind.letter (r.kind.shown q) ++ ['\n'])) c := by
  obtain ⟨htrim, htext⟩ := r.trim_asked habs hq
  rw [htrim]
  exact RemotefsSsh.exists_reads (Columns.cut_valid (k := r.asked) h.short r.kind.typeLetter_letter htext)
    (Columns.cut_text h.no_flag _ _)

/-- A child of a directory is found again under its name only. -/
theorem samePath_child {d dir : PathBuf} {n s : Str} (hd : isAbsolute d = true) (hn : IsName n)
    (hdir : parent (push d n) = some dir) : SamePath (push d n) (push dir (sanitize s)) ↔ sanitize s = n := by
  obtain ⟨dir', hdir', hsame⟩ := parent_push_name hd hn
  rw [hdir] at hdir'
  cases hdir'
  obtain ⟨habs, -⟩ := components_parent (isAbsolute_push hd) hdir
  unfold SamePath
  rw [components_push_name hd hn, ← hsame]
  constructor
  · intro h
    have hfile := fileName_of_components_push habs h.symm
    cases hs : fileName s with
    | some m =>
      have hm : sanitize s = m := by rw [sanitize, hs]; rfl
      rw [hm, fileName_of_name (isName_of_fileName hs)] at hfile
      rw [hm]
      exact Option.some.inj hfile
    | none =>
      have hraw : sanitize s = s := by rw [sanitize, hs]; rfl
      rw [hraw, hs] at hfile
      cases hfile
  · intro h
    rw [h, components_push_name habs hn]

/-- What is read of the row and of the line for its path is the same exactly when the row is steady. -/
theorem Row.InPlace.sameFile_iff {L : Libs} {year : Int} {d dir : PathBuf} {e : Cut} (hd : isAbsolute d = true)
    (hname : IsName r.name) (hdir : parent (push d r.name) = some dir)
    (hc : r.toColumns.ReadAs r.kind.letter (stripCr r.shown) c) (hin : r.listedCut.entryName = r.name)
    (he : r.asked.ReadAs r.kind.letter (trimEnd (r.kind.shown q)) e) :
    SameFile (c.file L year d) (e.file L year dir) ↔ r.Steady q := by
  have hcname : c.entryName = r.name := hc.entryName.trans hin
  have hename : e.entryName = (r.askedCut q).entryName := he.entryName
  have hctarget : c.shown.2 = r.listedCut.shown.2 := congrArg Prod.snd hc.shown
  have hetarget : e.shown.2 = (r.askedCut q).shown.2 := congrArg Prod.snd he.shown
  have hsize : c.size = e.size := hc.size.trans he.size.symm
  have hdate : c.date = e.date := hc.date.trans he.date.symm
  have hpath : SamePath (push d c.entryName) (push dir e.entryName) ↔ (r.askedCut q).entryName = r.name := by
    rw [hcname, ← hename]
    exact samePath_child hd hname hdir
  constructor
  · intro h
    refine ⟨hpath.1 h.path, ?_, r.uid_steady.1 ?_, r.gid_steady.1 ?_⟩
    · rw [← hctarget, ← hetarget]
      exact h.symlink.symm
    · rw [← hc.uid, ← he.uid]
      exact h.uid
    · rw [← hc.gid, ← he.gid]
      exact h.gid
  · intro h
    have htarget : c.shown.2 = e.shown.2 := by rw [hctarget, hetarget, h.target]
    refine ⟨hpath.2 h.name, ?_, htarget, ?_, ?_, ?_, ?_, ?_⟩
    · simp only [Cut.file, Cut.metadata, Cut.fileType, htarget, hc.kind, he.kind]
    · simp only [Cut.file, Cut.metadata, hsize]
    · simp only [Cut.file, Cut.metadata, hc.perms, he.perms]
      rfl
    · exact hc.uid.trans ((r.uid_steady.2 h.uid).trans he.uid.symm)
    · exact hc.gid.trans ((r.gid_steady.2 h.gid).trans he.gid.symm)
    · simp only [Cut.file, Cut.metadata, hdate]

end

/-! ## The two operations -/

/-- `ls -la` of `d` prints the entries `es`, and `ls` of each of them the same values with its path. -/
structure ShowsListing {ω : Type} (M : Sh.Machine ω) (tree : ω → Tree) (w : ω) (d : PathBuf)
    (total : Nat) (es : List Entry) :
    Prop where
  listing : ∃ s, M.runLine (ShellCmd.listDir d).line w = some s ∧ s.out = reply total es ∧ s.world = w
  asked : ∀ r ∈ es.filterMap Entry.due,
    lsReply M tree w (push d r.name) = r.asked.line r.kind.letter (r.kind.shown (push d r.name)) ++ ['\n']

namespace ScpFs

section
variable {σ ω : Type} {M : Sh.Machine ω} {world : σ → ω} {tree : ω → Tree} {H : Handler Ssh σ} {L : Libs} {year : Int}
  {st st' : St Ssh ScpFs σ} {path : PathBuf} {files : List File}

/-- Each file of the loop is that of a line. -/
theorem listLines_hosts (hH : Hosts M world H) (hyear : ∀ env, (H.reply .utcYear env).1 = year) {dir : PathBuf}
    {ls : List Str} (h : listLines L dir ls H st = (.ok files, st')) :
    st'.self = st.self ∧ world st'.env = world st.env ∧
      ∀ f ∈ files, ∃ line ∈ ls, parseLsOutput L year dir line = .ok f := by
  induction ls generalizing st files with
  | nil =>
    cases h
    exact ⟨rfl, rfl, by simp⟩
  | cons line rest ih =>
    unfold listLines at h
    obtain ⟨r, st₁, h₁, h⟩ := bind_eq_ok h
    obtain ⟨hparse, hself, henv⟩ := parseLine_eq_ok h₁
    have hworld : world st₁.env = world st.env := by
      rw [henv]
      exact hH.looks _ _ trivial
    rw [hyear] at hparse
    cases r with
    | error _ =>
      obtain ⟨hself', hworld', hfiles⟩ := ih h
      refine ⟨hself'.trans hself, hworld'.trans hworld, fun f hf => ?_⟩
      obtain ⟨l, hl, hline⟩ := hfiles f hf
      exact ⟨l, List.mem_cons_of_mem _ hl, hline⟩
    | ok entry =>
      obtain ⟨files', st₂, h₂, h⟩ := bind_eq_ok h
      cases h
      obtain ⟨hself', hworld', hfiles⟩ := ih h₂
      refine ⟨hself'.trans hself, hworld'.trans hworld, fun f hf => ?_⟩
      rcases List.mem_cons.1 hf with rfl | hf
      · exact ⟨line, List.mem_cons_self, hparse⟩
      · obtain ⟨l, hl, hline⟩ := hfiles f hf
        exact ⟨l, List.mem_cons_of_mem _ hl, hline⟩

/-- A listing leaves everything as it was, and each file of it is that of a row. -/
theorem listDir_hosts (hH : Hosts M world H) (hM : ShowsTree M tree) (hyear : ∀ env, (H.reply .utcYear env).1 = year)
    {total : Nat} {es : List Entry} (hwrkdir : isAbsolute st.self.wrkdir = true)
    (hplain : Sh.Plain (absolutize st.self.wrkdir path))
    (hls : ShowsListing M tree (world st.env) (absolutize st.self.wrkdir path) total es)
    (h : listDir L path H st = (.ok files, st')) :
    (∃ session, st'.self.session = some session) ∧ world st'.env = world st.env ∧
      ∀ f ∈ files, ∃ r ∈ es.filterMap Entry.due,
        parseLsOutput L year (absolutize st.self.wrkdir path) (stripCr r.line) = .ok f := by
  unfold listDir at h
  obtain ⟨_, st₁, h₁, h⟩ := bind_eq_ok h
  obtain ⟨hself₁, hworld₁, session, hs⟩ := checkConnection_looks hH h₁
  rw [bind_ok self_run, hself₁] at h
  have habs := isAbsolute_absolutize hwrkdir path
  generalize absolutize st.self.wrkdir path = d at *
  have habsd : absolutize st₁.self.wrkdir d = d := if_pos habs
  obtain ⟨b, st₂, h₂, h⟩ := bind_eq_ok h
  cases b with
  | false => cases h
  | true =>
    obtain ⟨hself₂, -, hworld₂⟩ := existsOrFalse_hosts hH (by rw [habsd]; exact hM.calls_existsPath hplain) h₂
    rw [habsd, hM.existsPath, hworld₁] at hworld₂
    rw [if_pos rfl, bind_ok self_run, hself₂, hself₁, hs, bind_ok (unwrap_run session)] at h
    obtain ⟨r, st₃, h₃, h⟩ := bind_eq_ok h
    cases r with
    | error err => cases h
    | ok output =>
      obtain ⟨s, hrun, hout, hsame⟩ := hls.listing
      have h₃ := attempt_eq_ok h₃
      rw [ShellCmd.line_of_bare rfl] at h₃
      obtain ⟨houtput, hworld₃⟩ := hH.shell _ _ _ _ _ _ (by rw [hworld₂]; exact hrun) h₃
      obtain ⟨hself₄, hworld₄, hfiles⟩ := listLines_hosts hH hyear h
      refine ⟨⟨session, ?_⟩, ?_, fun f hf => ?_⟩
      · rw [hself₄, (performShellCmd_ok h₃).1, hself₂, hself₁, hs]
      · rw [hworld₄, hworld₃, hsame]
      · obtain ⟨line, hline, hparse⟩ := hfiles f hf
        rw [houtput, hout, lines_reply, List.mem_cons, List.mem_map] at hline
        rcases hline with rfl | ⟨e, he, rfl⟩
        · rw [parseLsOutput_of_no_cut fun c hc => no_cut_header total hc] at hparse
          cases hparse
        · cases hdue : e.due with
          | none =>
            rw [Entry.parse_none hdue] at hparse
            cases hparse
          | some r =>
            obtain ⟨rfl, -⟩ := Entry.due_eq_some hdue
            exact ⟨r, List.mem_filterMap.2 ⟨_, he, hdue⟩, hparse⟩

/-- `stat` is what the line for the path gives. -/
theorem stat_parse_iff (hH : Serves M world H) (hM : ShowsTree M tree) (hyear : ∀ env, (H.reply .utcYear env).1 = year)
    {session : SshSession} (hs : st.self.session = some session) (habs : isAbsolute path = true)
    (hplain : Sh.Plain path) {f : File} :
    (∃ st', stat L path H st = (.ok f, st')) ↔
      ∃ dir, parent path = some dir ∧ parseLsOutput L year dir (trim (lsReply M tree (world st.env) path)) = .ok f := by
  have hq : absolutize st.self.wrkdir path = path := if_pos habs
  constructor
  · rintro ⟨st', h⟩
    obtain ⟨dir, env, hdir, hparse⟩ := stat_hosts hH.toHosts hM (by rwa [hq]) (by rwa [hq]) h
    rw [hq, hyear] at *
    exact ⟨dir, hdir, hparse⟩
  · rintro ⟨dir, hdir, hparse⟩
    obtain ⟨f', st', h⟩ := (stat_ok_iff (L := L) hH hM hs (by rwa [hq]) (by rwa [hq])).2
      (by rw [hq]; exact ⟨by rw [hdir]; rfl, hM.parse_ok_iff.1 ⟨f, hparse⟩⟩)
    obtain ⟨dir', env, hdir', hparse'⟩ := stat_hosts hH.toHosts hM (by rwa [hq]) (by rwa [hq]) h
    rw [hq, hyear] at *
    rw [hdir] at hdir'
    cases hdir'
    rw [hparse] at hparse'
    cases hparse'
    exact ⟨st', h⟩

/-- `ls` has answered with a line for the path, so there is no newline in it. -/
theorem newline_of_asked {ω : Type} {M : Sh.Machine ω} {tree : ω → Tree} (hM : ShowsTree M tree) {w : ω} {p : PathBuf}
    {k : Columns} {letter : Char} {shown : Str} (hletter : typeLetter letter = true)
    (h : lsReply M tree w p = k.line letter shown ++ ['\n']) : '\n' ∉ p := by
  unfold lsReply at h
  cases ho : (tree w).lstat p with
  | none =>
    rw [hM.absent w p ho] at h
    cases h
  | some o =>
    obtain ⟨line, hline, hout⟩ := hM.present w p o ho
    rw [hout] at h
    cases hline with
    | row k' hsize hp htarget => exact hp
    | special rest =>
      rename_i first other
      simp only [Columns.line, List.cons_append, List.cons.injEq] at h
      rw [h.1, hletter] at other
      cases other.1

end

end ScpFs

/-! ## A directory with one file -/

/-- `treeMachine` with a listing of one directory. -/
def listingMachine (t : Tree) (k : Columns) (d : PathBuf) (out : Str) : Sh.Machine Unit :=
  { treeMachine t k with
    utility := fun w cwd ws =>
      if ws = (ShellCmd.listDir d).words then (out, 0, ()) else (treeMachine t k).utility w cwd ws }

theorem listingMachine_shows {t : Tree} {k : Columns} (h : ShowsTree (treeMachine t k) fun _ => t)
    (d : PathBuf) (out : Str) :
    ShowsTree (listingMachine t k d out) fun _ => t := by
  have hother : ∀ w ws, ws ≠ (ShellCmd.listDir d).words →
      (listingMachine t k d out).utility w ['/'] ws = (treeMachine t k).utility w ['/'] ws := fun w ws hws => if_neg hws
  have hls : ∀ w p, (listingMachine t k d out).utility w ['/'] (t.lsCmd p).words =
      (treeMachine t k).utility w ['/'] (t.lsCmd p).words := by
    intro w p
    refine hother w _ ?_
    unfold Tree.lsCmd
    split <;> simp [ShellCmd.words, ShellCmd.front]
  refine ⟨fun w p => ?_, fun w p => ?_, fun w p o ho => ?_, fun w p ho => ?_, fun w p => rfl⟩
  · rw [← h.isDirectory w p]
    exact hother w _ (by simp [ShellCmd.words, ShellCmd.front])
  · rw [← h.existsPath w p]
    exact hother w _ (by simp [ShellCmd.words, ShellCmd.front])
  · obtain ⟨line, hline, hout⟩ := h.present w p o ho
    exact ⟨line, hline, (congrArg Prod.fst (hls w p)).trans hout⟩
  · exact (congrArg Prod.fst (hls w p)).trans (h.absent w p ho)

/-- `/srv` holds the file `/srv/a` of one byte. -/
def srvTree : Tree :=
  .of
    (fun p =>
      if p = "/srv".toList then some (.row .directory 1)
      else if p = "/srv/a".toList then some (.row .regular 1)
      else none)
    (fun _ => none) (fun _ _ h => by cases h)

/-- The listing of `/srv` shows `es`; the columns for a single path are those of `r`. -/
def srvMachine (r : Row) (es : List Entry) : Sh.Machine Unit :=
  listingMachine srvTree r.asked "/srv".toList (reply 1 es)

theorem srvMachine_shows (r : Row) (es : List Entry) : ShowsTree (srvMachine r es) fun _ => srvTree := by
  refine listingMachine_shows (treeMachine_shows fun p kind size h => ?_) _ _
  unfold srvTree Tree.of at h
  dsimp only at h
  split at h
  · cases h
    rename_i hp
    subst hp
    exact ⟨by decide, fun u hu => by cases hu⟩
  · split at h
    · cases h
      rename_i hp
      subst hp
      exact ⟨by decide, fun u hu => by cases hu⟩
    · cases h

def srvSite (r : Row) (es : List Entry) : Handler Ssh (Unit × Str) :=
  site (srvMachine r es) (fun _ _ => .error ⟨.sftp 2, []⟩) fun w _ _ => w

def srvClient : St Ssh ScpFs (Unit × Str) := ⟨⟨some ⟨0⟩, ['/'], SshOpts.new "h".toList⟩, ((), []), []⟩

theorem plainRow_inPlace : plainRow.InPlace Classes.ascii "/srv/a".toList := by
  exact
    { no_flag := rfl
      short := rfl
      owner_head := by intro x hx; cases hx; decide
      group_end := by intro x hx; cases hx; decide
      name_head := by intro x hx; cases hx; decide
      listed := Columns.lastPlace_of_no_digit (k := plainRow.toColumns) rfl rfl ⟨by decide, by decide⟩ (by decide)
      asked := Columns.lastPlace_of_no_digit (k := plainRow.asked) rfl rfl ⟨by decide, by decide⟩ (by decide)
      name := by decide }

/-- The owner of this file has no name. -/
def numberedRow : Row :=
  { plainRow with owner := ['7'], pads := fun i => if i = .group then 3 else 0, owner_text := ⟨by decide, by decide⟩ }

/-- The directory itself, with a longer owner. -/
def dotRow : Row :=
  { plainRow with
    kind := .directory
    owner := "root".toList
    name := dot
    owner_text := ⟨by decide, by decide⟩
    name_text := ⟨by decide, by decide⟩
    name_component := by decide
    target_text := fun _ h => by cases h
    dots := fun _ => ⟨rfl, rfl⟩ }

/-- What `stat` tells of it. -/
def numberedEntry : File := { plainEntry ['a'] with metadata := { (plainEntry ['a']).metadata with uid := some 7 } }

def paddedSite : Handler Ssh (Unit × Str) := srvSite numberedRow [.row dotRow, .row numberedRow]

end RemotefsSsh
