import RemotefsSsh.Asking
import RemotefsSsh.CopyMove
import RemotefsSsh.Lib.FileLinks

/-!
# Making symbolic links (ssh/scp.rs:493-515, ssh/sftp.rs:328-349)

Both clients test the target from the working directory, and put it into the link as it was given. The file system
reads a relative one from the directory of the link. On a machine whose `ln` is that of POSIX (`MakesLinks`), a call
that succeeded has made a link to what was tested exactly when no directory was in the way, and the target is absolute
or its walks from the two directories come together (`symlink_checked_iff`).
-/

namespace RemotefsSsh

open Utf8 UnixPath Effect Prog FileTree

/-- Something is where the path leads. -/
def Leads {α : Type} (t : Tree Str α) (p : PathBuf) : Prop := ∃ q, Reaches t [] (steps p) q ∧ t q ≠ none

/-- What `ln` takes for an option. -/
def isOption (s : Str) : Bool := s.head? = some '-' && s ≠ ['-']

/-- The utilities on the files of a world: a `test -e` that exits with 0 has found something, and an `ln -s` that exits
with 0 has done what POSIX says. -/
structure MakesLinks {ω α : Type} (M : Sh.Machine ω) (files : ω → Tree Str α) : Prop where
  closed : ∀ w, Closed (files w)
  existsPath_silent : ∀ w p, (M.utility w M.home (ShellCmd.existsPath p).words).1 = []
  existsPath_same : ∀ w p, (M.utility w M.home (ShellCmd.existsPath p).words).2.2 = w
  existsPath : ∀ w p, isAbsolute p = true → (M.utility w M.home
    (ShellCmd.existsPath p).words).2.1 = 0 → Leads (files w) p
  symlink_silent : ∀ w target path, (M.utility w M.home (ShellCmd.symlink target path).words).1 = []
  symlink : ∀ w target path, isAbsolute path = true → isOption target = false →
    (M.utility w M.home (ShellCmd.symlink target path).words).2.1 = 0 →
    Ln (files w) (files (M.utility w M.home (ShellCmd.symlink target path).words).2.2) (steps path) (isAbsolute target)
      (steps target)

/-- The requests on the same files: a STAT that is answered has found something, a SYMLINK that succeeds has made the
link, where nothing was. A `test` whose answer is lost has changed nothing. -/
structure ServesLinks {σ ω α : Type} (world : σ → ω) (files : ω → Tree Str α) (H : Handler Ssh σ) : Prop where
  stat : ∀ f p env s, isAbsolute p = true → (H.reply (.stat f p) env).1 = .ok s → Leads (files (world env)) p
  symlink : ∀ f target path env, isAbsolute path = true → (H.reply (.symlink f target path) env).1 = .ok () →
    ∃ e n, EntryAt (files (world env)) (steps path) e n ∧ Linked (files (world env))
      (files (world (H.reply (.symlink f target path) env).2)) (e ++ [n]) (isAbsolute target) (steps target)
  lost : ∀ {κ : Type} (session : SshSession) (p : PathBuf) (st st' : St Ssh κ σ) (err : RemoteError),
    performShellCmd session (ShellCmd.existsPath p).line H st = (.err err, st') → world st'.env = world st.env

/-! ## Paths below the working directory -/

theorem steps_ne_nil (p : PathBuf) : steps p ≠ [] := by
  unfold steps
  rw [ne_eq, List.map_eq_nil_iff]
  exact segs_ne_nil p

theorem steps_append (a b : PathBuf) : steps (a ++ '/' :: b) = steps a ++ steps b := by
  unfold steps
  rw [segs_append, List.map_append]

/-- A relative path goes on from where the working directory is. -/
theorem reaches_push {α : Type} {t : Tree Str α} (hc : Closed t) {wrkdir p : PathBuf} (hw : isAbsolute wrkdir = true)
    (hp : isAbsolute p = false) {q : Place Str} :
    Reaches t [] (steps (push wrkdir p)) q ↔ ∃ d, Reaches t [] (steps wrkdir) d ∧ t d = some .dir ∧
      Reaches t d (steps p) q := by
  have key : ∀ a : PathBuf, Reaches t [] (steps (a ++ '/' :: p)) q ↔
      ∃ d, Reaches t [] (steps a) d ∧ t d = some .dir ∧ Reaches t d (steps p) q := by
    intro a
    rw [steps_append]
    constructor
    · intro h
      exact h.split hc hc.root rfl (Or.inl (steps_ne_nil p))
    · rintro ⟨d, hd, hdir, h⟩
      exact hd.append hdir h
  unfold push
  rw [hp, if_neg Bool.false_ne_true]
  by_cases hlast : wrkdir = [] ∨ wrkdir.getLast? = some '/'
  · rw [if_pos hlast]
    obtain ⟨a, rfl⟩ : ∃ a, wrkdir = a ++ ['/'] := by
      rcases hlast with rfl | hlast
      · cases hw
      · exact List.getLast?_eq_some_iff.1 hlast
    -- the slash at the end is an empty step
    have hend : steps (a ++ ['/']) = steps a ++ [.empty] := steps_append a []
    rw [List.append_assoc, List.singleton_append, key a, hend]
    constructor
    · rintro ⟨d, hd, hdir, h⟩
      exact ⟨d, hd.append hdir (.empty (.done hdir)), hdir, h⟩
    · rintro ⟨d, hd, hdir, h⟩
      obtain ⟨e, he, hedir, hrest⟩ := hd.split hc hc.root rfl (Or.inl (List.cons_ne_nil _ _))
      cases hrest with
      | empty hrest =>
        cases hrest with
        | done _ => exact ⟨_, he, hdir, h⟩
  · rw [if_neg hlast]
    exact key wrkdir

/-- No directory is in the way; and the target is absolute, or its walks from the working directory and from the
directory of the link come together. -/
def Meets {α : Type} (t : Tree Str α) (wrkdir path target : PathBuf) : Prop :=
  ¬ Opens t (steps (absolutize wrkdir path)) ∧
    (isAbsolute target = true ∨ ∃ d e n, Reaches t [] (steps wrkdir) d ∧ t d = some .dir ∧
      EntryAt t (steps (absolutize wrkdir path)) e n ∧ Together t (steps target) d e)

/-- What `ln` has done to a target that was there. -/
theorem linkPost_iff_meets {α : Type} {t t' : Tree Str α} (hc : Closed t) {wrkdir path target : PathBuf}
    (hw : isAbsolute wrkdir = true) (hthere : Leads t (absolutize wrkdir target))
    (h : Ln t t' (steps (absolutize wrkdir path)) (isAbsolute target) (steps target)) :
    LinkPost t t' (steps (absolutize wrkdir path)) (steps (absolutize wrkdir target)) ↔ Meets t wrkdir path target := by
  obtain ⟨q, hq, hne⟩ := hthere
  rw [h.post_iff hc hq hne]
  refine and_congr_right fun hopens => ?_
  cases habs : isAbsolute target with
  | true =>
    have hsame : absolutize wrkdir target = target := if_pos habs
    rw [hsame] at hq
    refine iff_of_true ?_ (Or.inl rfl)
    cases h with
    | onto _ hentry _ => exact ⟨_, _, hentry, hq⟩
    | into hd hdir _ _ => exact absurd ⟨_, hd, hdir⟩ hopens
  | false =>
    have hbelow : absolutize wrkdir target = push wrkdir target := if_neg (by rw [habs]; simp)
    rw [hbelow, reaches_push hc hw habs] at hq
    obtain ⟨d, hd, hdir, hq⟩ := hq
    constructor
    · rintro ⟨e, n, hentry, hway⟩
      exact Or.inr ⟨d, e, n, hd, hdir, hentry, (together_iff hq).2 hway⟩
    · rintro (h | ⟨d', e, n, hd', -, hentry, htogether⟩)
      · cases h
      · rw [hd'.det hd] at htogether
        exact ⟨e, n, hentry, (together_iff hq).1 htogether⟩

/-- **In a tree without links, a target that climbs up `n` directories has to be linked from a directory that has the
same one `n` above it, if the way goes on from there.** -/
theorem meets_iff_climb {α : Type} {t : Tree Str α} (hc : Closed t)
    (hno : ∀ p absolute way, t p ≠ some (.link absolute way)) {wrkdir path target : PathBuf}
    (hw : isAbsolute wrkdir = true)
    (htarget : isAbsolute target = false) (hthere : Leads t (absolutize wrkdir target)) {d e : Place Str} {n : Str}
    (hd : Reaches t [] (steps wrkdir) d) (he : EntryAt t (steps (absolutize wrkdir path)) e n)
    (hopens : ¬ Opens t (steps (absolutize wrkdir path))) :
    Meets t wrkdir path target ↔ (∃ q, Reaches t e (steps target) q) ∧
      d.take (d.length - climb (steps target)) = e.take (e.length - climb (steps target)) := by
  obtain ⟨q, hq, -⟩ := hthere
  have hbelow : absolutize wrkdir target = push wrkdir target := if_neg (by rw [htarget]; simp)
  rw [hbelow, reaches_push hc hw htarget] at hq
  obtain ⟨d', hd', hdir, hq⟩ := hq
  obtain rfl := hd.det hd'
  have htogether : Meets t wrkdir path target ↔ Together t (steps target) d e := by
    constructor
    · rintro ⟨-, habs | ⟨d', e', m, hd', -, he', h⟩⟩
      · rw [htarget] at habs
        cases habs
      · rwa [hd'.det hd, (he'.det he).1] at h
    · intro h
      exact ⟨hopens, Or.inr ⟨d, e, n, hd, hdir, he, h⟩⟩
  rw [htogether]
  constructor
  · intro h
    have h' := (together_iff hq).1 h
    exact ⟨⟨q, h'⟩, (together_iff_climb hno hq h').1 h⟩
  · rintro ⟨⟨q', h'⟩, h⟩
    exact (together_iff_climb hno hq h').2 h

/-! ## Calls that succeeded -/

/-- The rest of a text that is read as it stands is read as it stands. -/
theorem plain_of_append {a s : Str} (h : Sh.Plain (a ++ s)) : Sh.Plain s := by
  induction a with
  | nil => exact h
  | cons c a ih =>
    rw [List.cons_append] at h
    generalize hrest : a ++ s = rest at h ih
    cases h with
    | char _ h => exact ih h
    | backslash _ _ h => exact ih h
    | dollar _ h => exact ih h

theorem plain_of_absolutize {wrkdir p : PathBuf} (h : Sh.Plain (absolutize wrkdir p)) : Sh.Plain p := by
  unfold absolutize at h
  split at h
  · exact h
  · rename_i habs
    unfold push at h
    rw [if_neg habs] at h
    split at h
    · exact plain_of_append h
    · exact plain_of_append (a := wrkdir ++ ['/']) (by rwa [List.append_assoc])

section
variable {σ ω α : Type} {M : Sh.Machine ω} {world : σ → ω} {files : ω → Tree Str α} {H : Handler Ssh σ}
  {wrkdir path target : PathBuf}

theorem MakesLinks.calls_existsPath (hM : MakesLinks M files) {p : PathBuf} (hp : Sh.Plain p) :
    (ShellCmd.existsPath p).Calls M :=
  ShellCmd.calls rfl trivial (ShellCmd.plain_one hp) fun w => hM.existsPath_silent w p

theorem MakesLinks.calls_symlink (hM : MakesLinks M files) (ht : Sh.Plain target) (hp : Sh.Plain path) :
    (ShellCmd.symlink target path).Calls M :=
  ShellCmd.calls rfl trivial (ShellCmd.plain_pair ht hp) fun w => hM.symlink_silent w target path

namespace ScpFs

variable {st st' : St Ssh ScpFs σ} {p : PathBuf}

/-- A test whose answer is lost changes nothing. -/
theorem runTest_failed (hH : Hosts M world H) (hM : MakesLinks M files) (hS : ServesLinks world files H)
    (hp : Sh.Plain p) {err : RemoteError} (h : runTest (.existsPath p) H st = (.err err, st')) :
    Leaves world st st' := by
  have hcalls := hM.calls_existsPath hp
  unfold runTest at h
  rw [bind_ok self_run] at h
  cases hs : st.self.session with
  | none => rw [hs] at h; cases h
  | some session =>
    rw [hs, bind_ok (unwrap_run session)] at h
    rcases bind_eq_err h with h | ⟨r, st₁, h₁, h⟩
    · unfold attempt at h
      split at h <;> cases h
    · cases r with
      | ok r => cases h
      | error e =>
        cases h
        have h₁ := attempt_eq_error h₁
        unfold performShellCmdWithRc at h₁
        rw [ShellCmd.line_of_withRc rfl] at h₁
        rcases bind_eq_err h₁ with h₁ | ⟨reply, st₂, h₂, h₁⟩
        · have hasks : Asks H true _ (fun _ => True)
            (performShellCmd session (ShellCmd.existsPath p).line : Remote ScpFs σ _) :=
            performShellCmd_asks (along_any H true) session (.existsPath p)
          have hself := hasks.self_eq st
          rw [h₁] at hself
          exact ⟨hself, hS.lost session p st _ e h₁⟩
        · -- an answer that came back can be read
          rw [(hH.reply hcalls h₂).1, ofOut_run, rcOfOutput_framed_blank blank_nil] at h₁
          cases h₁

/-- Whatever comes of the test, it changes nothing. -/
theorem existsOrFalse_leaves (hH : Hosts M world H) (hM : MakesLinks M files) (hS : ServesLinks world files H)
    (hp : Sh.Plain (absolutize st.self.wrkdir p)) {b : Bool} (h : existsOrFalse p H st = (.ok b, st')) :
    Leaves world st st' := by
  unfold existsOrFalse at h
  obtain ⟨r, st₁, h₁, h⟩ := bind_eq_ok h
  cases r with
  | ok b' =>
    cases h
    obtain ⟨hself, -, hworld⟩ := existsPath_hosts hH (hM.calls_existsPath hp) (attempt_eq_ok h₁)
    exact ⟨hself, hworld.trans (hM.existsPath_same _ _)⟩
  | error err =>
    cases h
    have h₁ := attempt_eq_error h₁
    unfold existsPath at h₁
    rcases bind_eq_err h₁ with h₁ | ⟨_, st₂, h₂, h₁⟩
    · have hleft := checkConnection_leaves hH st
      rwa [h₁] at hleft
    · obtain ⟨hself, hworld, -⟩ := checkConnection_looks hH h₂
      rw [bind_ok self_run, hself] at h₁
      exact leaves_stable.trans ⟨hself, hworld⟩ (runTest_failed hH hM hS hp h₁)

/-- A link that was made: the target had been found, and `ln` has done what POSIX says. -/
theorem symlink_hosts (hH : Hosts M world H) (hM : MakesLinks M files) (hS : ServesLinks world files H)
    (hw : isAbsolute st.self.wrkdir = true) (hp : Sh.Plain (absolutize st.self.wrkdir path))
    (ht : Sh.Plain (absolutize st.self.wrkdir target)) (hoption : isOption target = false)
    (h : symlink path target H st = (.ok (), st')) :
    Leads (files (world st.env)) (absolutize st.self.wrkdir target) ∧
      Ln (files (world st.env)) (files (world st'.env)) (steps (absolutize st.self.wrkdir path)) (isAbsolute target)
        (steps target) := by
  have hpabs := isAbsolute_absolutize hw path
  unfold symlink at h
  obtain ⟨_, st₁, h₁, h⟩ := bind_eq_ok h
  obtain ⟨hself₁, hworld₁, -⟩ := checkConnection_looks hH h₁
  rw [bind_ok self_run, hself₁] at h
  obtain ⟨b, st₂, h₂, h⟩ := bind_eq_ok h
  cases b with
  | false => cases h
  | true =>
    rw [if_pos rfl] at h
    obtain ⟨hself₂, hcode, hworld₂⟩ := existsOrFalse_hosts hH (hM.calls_existsPath (by rwa [hself₁])) h₂
    rw [hself₁, hworld₁] at hcode
    rw [hM.existsPath_same, hworld₁] at hworld₂
    rw [hself₁] at hself₂
    refine ⟨hM.existsPath _ _ (isAbsolute_absolutize hw target) hcode, ?_⟩
    obtain ⟨b, st₃, h₃, h⟩ := bind_eq_ok h
    cases b with
    | true => cases h
    | false =>
      rw [if_neg Bool.false_ne_true] at h
      have hleft := existsOrFalse_leaves hH hM hS (by rwa [hself₂, absolutize_absolutize hpabs]) h₃
      obtain ⟨-, hcode, hworld⟩ := runRc_hosts hH (hM.calls_symlink (plain_of_absolutize ht) hp) h
      rw [hleft.world, hworld₂] at hcode hworld
      rw [hworld]
      exact hM.symlink _ _ _ hpabs hoption hcode

end ScpFs

namespace SftpFs

variable {st st' : St Ssh SftpFs σ} {p : PathBuf}

/-- A file that was found is there, and the request has changed nothing. -/
theorem existsPath_true (hH : Hosts M world H) (hS : ServesLinks world files H) (hw : isAbsolute st.self.wrkdir = true)
    (h : existsPath p H st = (.ok true, st')) :
    Leads (files (world st.env)) (absolutize st.self.wrkdir p) ∧ Leaves world st st' := by
  unfold existsPath at h
  obtain ⟨r, st₁, h₁, h⟩ := bind_eq_ok h
  have hleft := stat_leaves hH p st
  cases r with
  | error err =>
    have h : (if err.kind = .noSuchFileOrDirectory then pure false else Prog.throw err : Remote SftpFs σ Bool) H st₁ =
      (.ok true, st') := h
    split at h
    · cases h
    · cases h
  | ok file =>
    cases h
    have h₁ := attempt_eq_ok h₁
    rw [h₁] at hleft
    refine ⟨?_, hleft⟩
    obtain ⟨sftp, -, h₁⟩ := withSftp_eq_ok h₁
    obtain ⟨metadata, st₂, h₂, -⟩ := bind_eq_ok h₁
    exact hS.stat sftp _ _ metadata (isAbsolute_absolutize hw p) (ask_ok (orKind_eq_ok h₂)).1

/-- A link that was made: the target had been found, and there was nothing where the link is. -/
theorem symlink_hosts (hH : Hosts M world H) (hM : MakesLinks M files) (hS : ServesLinks world files H)
    (hw : isAbsolute st.self.wrkdir = true) (h : symlink path target H st = (.ok (), st')) :
    Leads (files (world st.env)) (absolutize st.self.wrkdir target) ∧
      Ln (files (world st.env)) (files (world st'.env)) (steps (absolutize st.self.wrkdir path)) (isAbsolute target)
        (steps target) := by
  unfold symlink at h
  obtain ⟨_, st₁, h₁, h⟩ := bind_eq_ok h
  have hleft₁ : Leaves world st st₁ := by simpa [h₁] using checkConnection_leaves hH st
  rw [bind_ok self_run, hleft₁.self] at h
  obtain ⟨b, st₂, h₂, h⟩ := bind_eq_ok h
  cases b with
  | false => cases h
  | true =>
    rw [if_pos rfl, bind_ok self_run] at h
    obtain ⟨hthere, hleft₂⟩ := existsPath_true hH hS (by rwa [hleft₁.self]) h₂
    rw [hleft₁.self, hleft₁.world] at hthere
    have hleft := leaves_stable.trans hleft₁ hleft₂
    refine ⟨hthere, ?_⟩
    cases hsftp : st₂.self.sftp with
    | none => rw [hsftp] at h; cases h
    | some sftp =>
      rw [hsftp, bind_ok (unwrap_run sftp)] at h
      obtain ⟨hreply, henv, -, -⟩ := ask_ok (orKind_eq_ok h)
      obtain ⟨e, n, hentry, hlinked⟩ := hS.symlink _ _ _ _ (isAbsolute_absolutize hw path) hreply
      rw [← henv, hleft.world] at hlinked
      rw [hleft.world] at hentry
      exact .onto (hentry.not_opens (hM.closed _) hlinked.fresh) hentry hlinked

end SftpFs

/-- **What a call that succeeded has linked is what it has tested exactly when no directory was in the way, and the
target is absolute or its walks from the working directory and from the directory of the link come together.** -/
theorem symlink_checked_iff (hH : Hosts M world H) (hM : MakesLinks M files) (hS : ServesLinks world files H)
    (hw : isAbsolute wrkdir = true) :
    (Sh.Plain (absolutize wrkdir path) → Sh.Plain (absolutize wrkdir target) → isOption target = false →
      ∀ st st' : St Ssh ScpFs σ, st.self.wrkdir = wrkdir → ScpFs.symlink path target H st = (.ok (), st') →
        (LinkPost (files (world st.env)) (files (world st'.env)) (steps (absolutize wrkdir path))
          (steps (absolutize wrkdir target)) ↔ Meets (files (world st.env)) wrkdir path target)) ∧
    (∀ st st' : St Ssh SftpFs σ, st.self.wrkdir = wrkdir → SftpFs.symlink path target H st = (.ok (), st') →
        (LinkPost (files (world st.env)) (files (world st'.env)) (steps (absolutize wrkdir path))
          (steps (absolutize wrkdir target)) ↔ Meets (files (world st.env)) wrkdir path target)) := by
  refine ⟨fun hp ht hoption st st' hwrk h => ?_, fun st st' hwrk h => ?_⟩
  · subst hwrk
    obtain ⟨hthere, hln⟩ := ScpFs.symlink_hosts hH hM hS hw hp ht hoption h
    exact linkPost_iff_meets (hM.closed _) hw hthere hln
  · subst hwrk
    obtain ⟨hthere, hln⟩ := SftpFs.symlink_hosts hH hM hS hw h
    exact linkPost_iff_meets (hM.closed _) hw hthere hln

end

/-! ## A file, and a directory beside it -/

/-- `/a` is a file and `/d` a directory; then `/l` or `/d/l` is a link with the way `a`. -/
inductive SampleLinks where
  | start | here | deep
deriving DecidableEq

namespace SampleLinks

def a : Str := ['a']
def d : Str := ['d']
def l : Str := ['l']

def place : SampleLinks → Option (Place Str)
  | start => none
  | here => some [l]
  | deep => some [d, l]

def tree (w : SampleLinks) : Tree Str Str := fun p =>
  if p = [] ∨ p = [d] then some .dir
  else if p = [a] then some (.file []) else if w.place = some p then some (.link false [.name a]) else none

def atA : PathBuf := "/a".toList
def atL : PathBuf := "/l".toList
def atDL : PathBuf := "/d/l".toList

def ln (w : SampleLinks) (target path : PathBuf) : Option SampleLinks :=
  if w = start ∧ target = a then (if path = atL then some here else if path = atDL then some deep else none) else none

def machine : Sh.Machine SampleLinks where
  home := ['/']
  enter _ _ _ := none
  utility w _ ws :=
    match ws with
    | [_, _, p] => ([], if p = atA then 0 else 1, w)
    | [_, _, target, path] => ([], if (ln w target path).isSome then 0 else 1, (ln w target path).getD w)
    | _ => ([], 127, w)

/-- What a STAT request tells. -/
def told (_ : SampleLinks) (p : PathBuf) : Except SshError FileStat :=
  if p = atA then .ok ⟨some 0, none, none, none, none, none⟩ else .error ⟨.sftp 2, []⟩

def server : Handler Ssh (SampleLinks × Str) where
  reply
    | .symlink _ target path, (w, out) =>
      match ln w target path with
      | some w' => (.ok (), (w', out))
      | none => (.error ⟨.sftp 4, []⟩, (w, out))
    | c, s => (site machine told fun w _ _ => w).reply c s

def scpClient : St Ssh ScpFs (SampleLinks × Str) := ⟨⟨some ⟨0⟩, ['/'], SshOpts.new "h".toList⟩, (start, []), []⟩

def sftpClient : St Ssh SftpFs (SampleLinks × Str) :=
  ⟨⟨some ⟨0⟩, some ⟨0⟩, ['/'], SshOpts.new "h".toList⟩, (start, []), []⟩

theorem ln_cases {w w' : SampleLinks} {target path : PathBuf} (h : ln w target path = some w') :
    w = start ∧ target = a ∧ ((path = atL ∧ w' = here) ∨ (path = atDL ∧ w' = deep)) := by
  unfold ln at h
  split at h
  · rename_i htarget
    refine ⟨htarget.1, htarget.2, ?_⟩
    split at h
    · rename_i hpath
      exact Or.inl ⟨hpath, (Option.some.inj h).symm⟩
    · split at h
      · rename_i hpath
        exact Or.inr ⟨hpath, (Option.some.inj h).symm⟩
      · cases h
  · cases h

theorem tree_dir {w : SampleLinks} {p : Place Str} (h : p = [] ∨ p = [d]) : w.tree p = some .dir := if_pos h

/-- Where something stands, a directory stands above. -/
theorem closed (w : SampleLinks) : Closed w.tree := by
  refine ⟨rfl, fun p n h => ?_⟩
  have hcases : p ++ [n] ∈ [d] :: [a] :: w.place.toList := by
    unfold tree at h
    split at h
    · rename_i hdir
      rcases hdir with hdir | hdir
      · exact absurd hdir (by simp)
      · simp [hdir]
    · split at h
      · rename_i hfile
        simp [hfile]
      · split at h
        · rename_i hlink
          simp [hlink]
        · exact absurd rfl h
  have hp : p ∈ ([d] :: [a] :: w.place.toList).map List.dropLast := List.mem_map.2 ⟨_, hcases, List.dropLast_concat⟩
  apply tree_dir
  cases w
  · exact Or.inl (by simpa [place] using hp)
  · exact Or.inl (by simpa [place] using hp)
  · simpa [place] using hp

theorem leads_a (w : SampleLinks) : Leads w.tree atA := by
  have ha : w.tree [a] = some (.file []) := by simp [tree, a, d]
  exact ⟨[a], .empty (.file ha), by simp [ha]⟩

theorem entry_l (w : SampleLinks) : EntryAt w.tree (steps atL) [] l :=
  ⟨[.empty], false, rfl, .empty (.done rfl), rfl⟩

theorem entry_dl (w : SampleLinks) : EntryAt w.tree (steps atDL) [d] l :=
  ⟨[.empty, .name d], false, rfl, .empty (.enter rfl (.done rfl)), rfl⟩

theorem linked_here : Linked start.tree here.tree [l] false [.name a] where
  fresh := by simp [tree, place, a, d, l]
  link := by simp [tree, place, a, d, l]
  elsewhere p hp := by simp [tree, place, Ne.symm hp]

theorem linked_deep : Linked start.tree deep.tree [d, l] false [.name a] where
  fresh := by simp [tree, place, a, d]
  link := by simp [tree, place, a, d]
  elsewhere p hp := by simp [tree, place, Ne.symm hp]

/-- A link that can be made is one that `ln` makes. -/
theorem linked_of_ln {w w' : SampleLinks} {target path : PathBuf} (h : ln w target path = some w') :
    ∃ e n, EntryAt w.tree (steps path) e n ∧ Linked w.tree w'.tree (e ++ [n]) (isAbsolute target) (steps target) := by
  obtain ⟨rfl, rfl, ⟨rfl, rfl⟩ | ⟨rfl, rfl⟩⟩ := ln_cases h
  · exact ⟨_, _, start.entry_l, linked_here⟩
  · exact ⟨_, _, start.entry_dl, linked_deep⟩

theorem makesLinks : MakesLinks machine tree where
  closed := closed
  existsPath_silent _ _ := rfl
  existsPath_same _ _ := rfl
  existsPath w p _ h := by
    have h : (if p = atA then (0 : UInt8) else 1) = 0 := h
    by_cases hp : p = atA
    · rw [hp]
      exact w.leads_a
    · rw [if_neg hp] at h
      cases h
  symlink_silent _ _ _ := rfl
  symlink w target path _ _ h := by
    cases hln : ln w target path with
    | none =>
      have h : (if (ln w target path).isSome then (0 : UInt8) else 1) = 0 := h
      rw [hln] at h
      cases h
    | some w' =>
      have hworld : (machine.utility w machine.home (ShellCmd.symlink target path).words).2.2 = w' := by
        have : (machine.utility w machine.home (ShellCmd.symlink target path).words).2.2 =
          (ln w target path).getD w := rfl
        rw [this, hln, Option.getD_some]
      obtain ⟨e, n, hentry, hlinked⟩ := linked_of_ln hln
      rw [hworld]
      exact .onto (hentry.not_opens (closed w) hlinked.fresh) hentry hlinked

theorem server_hosts : Hosts machine Prod.fst server where
  shell session line st st' s out hs h := (site_hosts machine told fun w _ _ => w).shell session line st st' s out hs h
  looks c env hc := by
    cases c with
    | authenticated s => rfl
    | stat f p => rfl
    | readlink f p => rfl
    | utcYear => rfl
    | _ => exact hc.elim

theorem server_serves : ServesLinks Prod.fst tree server where
  stat f p env s _ h := by
    have h : told env.1 p = .ok s := h
    unfold told at h
    by_cases hp : p = atA
    · rw [hp]
      exact env.1.leads_a
    · rw [if_neg hp] at h
      cases h
  symlink f target path env _ h := by
    obtain ⟨w, out⟩ := env
    cases hln : ln w target path with
    | none =>
      have hreply : server.reply (.symlink f target path) (w, out) = (.error ⟨.sftp 4, []⟩, (w, out)) := by
        simp only [server, hln]
      rw [hreply] at h
      cases h
    | some w' =>
      have hreply : server.reply (.symlink f target path) (w, out) = (.ok (), (w', out)) := by
        simp only [server, hln]
      rw [hreply]
      exact linked_of_ln hln
  lost session p st st' err h := by
    cases h

/-- Beside the target, nothing is in the way and the directories are the same. -/
theorem meets_here : Meets start.tree ['/'] l a := by
  refine ⟨start.entry_l.not_opens start.closed linked_here.fresh,
    Or.inr ⟨[], [], l, ?_, rfl, start.entry_l, together_self _ _⟩⟩
  exact .empty (.empty (.done rfl))

/-- From the directory of the link the way leads to another place. -/
theorem not_meets_deep : ¬ Meets start.tree ['/'] atDL a := by
  intro h
  have hno : ∀ p absolute way, start.tree p ≠ some (.link absolute way) := by
    intro p absolute way
    unfold tree
    split
    · simp
    · split
      · simp
      · simp [place]
  have hroot : Reaches start.tree [] (steps ['/']) [] := .empty (.empty (.done rfl))
  have hopens := start.entry_dl.not_opens start.closed linked_deep.fresh
  have hthere : Leads start.tree (absolutize ['/'] a) := start.leads_a
  have hclimb : Meets start.tree ['/'] atDL a ↔ _ :=
    meets_iff_climb start.closed hno rfl rfl hthere hroot start.entry_dl hopens
  have htake := (hclimb.1 h).2
  cases htake

end SampleLinks

open SampleLinks in
/-- Linked in the working directory, by both clients. -/
theorem symlink_checked_beside :
    (∃ st', ScpFs.symlink l a server scpClient = (.ok (), st') ∧
        LinkPost start.tree st'.env.1.tree (steps atL) (steps atA)) ∧
      ∃ st', SftpFs.symlink l a server sftpClient = (.ok (), st') ∧
        LinkPost start.tree st'.env.1.tree (steps atL) (steps atA) := by
  obtain ⟨st₁, hscp⟩ : ∃ st', ScpFs.symlink l a server scpClient = (.ok (), st') :=
    ⟨_, Prod.ext (by decide +kernel) rfl⟩
  obtain ⟨st₂, hsftp⟩ : ∃ st', SftpFs.symlink l a server sftpClient = (.ok (), st') :=
    ⟨_, Prod.ext (by decide +kernel) rfl⟩
  obtain ⟨h₁, h₂⟩ := @symlink_checked_iff _ _ _ _ _ _ _ ['/'] l a server_hosts makesLinks server_serves rfl
  exact ⟨⟨st₁, hscp, (h₁ (by decide) (by decide) rfl scpClient st₁ rfl hscp).2 meets_here⟩, st₂, hsftp,
    (h₂ sftpClient st₂ rfl hsftp).2 meets_here⟩

open SampleLinks in
/-- Linked in the directory beside the target: both calls succeed, and the link leads to nothing. -/
theorem symlink_from_directory :
    ((ScpFs.symlink atDL a server scpClient).1 = .ok () ∧
      ¬ LinkPost start.tree (ScpFs.symlink atDL a server scpClient).2.env.1.tree (steps atDL) (steps atA)) ∧
    (SftpFs.symlink atDL a server sftpClient).1 = .ok () ∧
      ¬ LinkPost start.tree (SftpFs.symlink atDL a server sftpClient).2.env.1.tree (steps atDL) (steps atA) := by
  have hln : Ln start.tree deep.tree (steps atDL) false (steps a) :=
    .onto (start.entry_dl.not_opens start.closed linked_deep.fresh) start.entry_dl linked_deep
  have hthere : Leads start.tree (absolutize ['/'] a) := start.leads_a
  have hiff : LinkPost start.tree deep.tree (steps atDL) (steps atA) ↔ Meets start.tree ['/'] atDL a :=
    @linkPost_iff_meets _ _ _ start.closed ['/'] atDL a rfl hthere hln
  have hno : ¬ LinkPost start.tree deep.tree (steps atDL) (steps atA) := fun h => not_meets_deep (hiff.1 h)
  have hscp : (ScpFs.symlink atDL a server scpClient).2.env.1 = deep := by decide +kernel
  have hsftp : (SftpFs.symlink atDL a server sftpClient).2.env.1 = deep := by decide +kernel
  rw [hscp, hsftp]
  exact ⟨⟨by decide +kernel, hno⟩, by decide +kernel, hno⟩

end RemotefsSsh
