import RemotefsSsh.Hosts
import RemotefsSsh.Lib.FileMoves

/-!
# Copying and moving with `cp` and `mv` (ssh/scp.rs:517-564, ssh/sftp.rs:351-373)

`ScpFs::mov` runs `mv -f`, and both clients copy with `cp -rf`. On a machine whose `mv` and `cp` are those of
POSIX (`Posix`), a command that exited with 0 has put the source at the destination when no directory was
there. A directory has received the source instead, and the call has succeeded all the same. `SftpFs::mov`
renames and does not differ in this way.
-/

namespace RemotefsSsh

open Utf8 UnixPath Effect Prog FileTree

/-- A segment of a path as a step from one directory to the next. -/
def step (seg : Str) : Step Str :=
  if seg = [] then .empty else if seg = dot then .dot else if seg = dotDot then .up else .name seg

/-- An absolute path as the steps from the root. -/
def steps (p : PathBuf) : List (Step Str) := (segs p).map step

/-- The utilities on the files of a world: `test -e` prints nothing and changes nothing, `mv -f` and `cp -rf` print
nothing and have done what POSIX says when they exit with 0. -/
structure Posix {ω α : Type} (M : Sh.Machine ω) (files : ω → Tree Str α) (follows : Bool) : Prop where
  closed : ∀ w, Closed (files w)
  bounded : ∀ w, Bounded (files w)
  existsPath_silent : ∀ w p, (M.utility w M.home (ShellCmd.existsPath p).words).1 = []
  existsPath_same : ∀ w p, (M.utility w M.home (ShellCmd.existsPath p).words).2.2 = w
  mov_silent : ∀ w src dest, (M.utility w M.home (ShellCmd.mov src dest).words).1 = []
  copy_silent : ∀ w src dest, (M.utility w M.home (ShellCmd.copy src dest).words).1 = []
  mov : ∀ w src dest, isAbsolute src = true → isAbsolute dest = true →
    (M.utility w M.home (ShellCmd.mov src dest).words).2.1 = 0 →
    Mv (files w) (files (M.utility w M.home (ShellCmd.mov src dest).words).2.2) (steps src) (steps dest)
  copy : ∀ w src dest, isAbsolute src = true → isAbsolute dest = true →
    (M.utility w M.home (ShellCmd.copy src dest).words).2.1 = 0 →
    Cp follows (files w) (files (M.utility w M.home (ShellCmd.copy src dest).words).2.2) (steps src) (steps dest)

section
variable {ω α : Type} {M : Sh.Machine ω} {files : ω → Tree Str α} {follows : Bool} {src dest p : PathBuf}

theorem Posix.calls_existsPath (hM : Posix M files follows) (hp : Sh.Plain p) : (ShellCmd.existsPath p).Calls M :=
  ShellCmd.calls rfl trivial (ShellCmd.plain_one hp) fun w => hM.existsPath_silent w p

theorem Posix.calls_mov (hM : Posix M files follows) (hs : Sh.Plain src) (hd : Sh.Plain dest) :
    (ShellCmd.mov src dest).Calls M :=
  ShellCmd.calls rfl trivial (ShellCmd.plain_pair hs hd) fun w => hM.mov_silent w src dest

theorem Posix.calls_copy (hM : Posix M files follows) (hs : Sh.Plain src) (hd : Sh.Plain dest) :
    (ShellCmd.copy src dest).Calls M :=
  ShellCmd.calls rfl trivial (ShellCmd.plain_pair hs hd) fun w => hM.copy_silent w src dest

end

theorem absolutize_absolutize {wrkdir p : PathBuf} (h : isAbsolute (absolutize wrkdir p) = true) :
    absolutize wrkdir (absolutize wrkdir p) = absolutize wrkdir p := if_pos h

/-! ## The commands that succeeded -/

namespace ScpFs

section
variable {σ ω α : Type} {M : Sh.Machine ω} {world : σ → ω} {files : ω → Tree Str α} {follows : Bool} {H : Handler Ssh σ}
  {st st' : St Ssh ScpFs σ} {src dest : PathBuf}

/-- A command on two paths, behind the test for the first of them. -/
theorem pair_hosts (hH : Hosts M world H) (hM : Posix M files follows) {cmd : PathBuf → PathBuf → ShellCmd}
    (hsrc : isAbsolute (absolutize st.self.wrkdir src) = true) (hs : Sh.Plain (absolutize st.self.wrkdir src))
    (hcalls : (cmd (absolutize st.self.wrkdir src) (absolutize st.self.wrkdir dest)).Calls M)
    (h : (do
      checkConnection
      let src := absolutize (← self).wrkdir src
      if ← existsOrFalse src then
        let dest := absolutize (← self).wrkdir dest
        runRc (cmd src dest) (.newEx .fileCreateDenied (quoted dest)) .protocolError
      else throw (.new .noSuchFileOrDirectory) : Remote ScpFs σ Unit) H st = (.ok (), st')) :
    (M.utility (world st.env) M.home (cmd (absolutize st.self.wrkdir src)
      (absolutize st.self.wrkdir dest)).words).2.1 = 0 ∧
      world st'.env =
        (M.utility (world st.env) M.home (cmd (absolutize st.self.wrkdir src)
          (absolutize st.self.wrkdir dest)).words).2.2 := by
  obtain ⟨_, st₁, h₁, h⟩ := bind_eq_ok h
  obtain ⟨hself₁, hworld₁, -⟩ := checkConnection_looks hH h₁
  rw [bind_ok self_run] at h
  rw [← hself₁] at hsrc hs hcalls ⊢
  obtain ⟨b, st₂, h₂, h⟩ := bind_eq_ok h
  cases b with
  | false => cases h
  | true =>
    have habs := absolutize_absolutize hsrc
    obtain ⟨hself₂, -, hworld₂⟩ := existsOrFalse_hosts hH (hM.calls_existsPath (by rwa [habs])) h₂
    rw [hM.existsPath_same] at hworld₂
    rw [if_pos rfl, bind_ok self_run, hself₂] at h
    obtain ⟨-, hcode, hworld⟩ := runRc_hosts hH hcalls h
    rw [hworld₂, hworld₁] at hcode hworld
    exact ⟨hcode, hworld⟩

theorem mov_hosts (hH : Hosts M world H) (hM : Posix M files follows)
    (hsrc : isAbsolute (absolutize st.self.wrkdir src) = true)
    (hdest : isAbsolute (absolutize st.self.wrkdir dest) = true)
    (hs : Sh.Plain (absolutize st.self.wrkdir src)) (hd : Sh.Plain (absolutize st.self.wrkdir dest))
    (h : mov src dest H st = (.ok (), st')) :
    Mv (files (world st.env)) (files (world st'.env)) (steps (absolutize st.self.wrkdir src))
      (steps (absolutize st.self.wrkdir dest)) := by
  obtain ⟨hcode, hworld⟩ := pair_hosts hH hM hsrc hs (hM.calls_mov hs hd) h
  rw [hworld]
  exact hM.mov _ _ _ hsrc hdest hcode

theorem copy_hosts (hH : Hosts M world H) (hM : Posix M files follows)
    (hsrc : isAbsolute (absolutize st.self.wrkdir src) = true)
    (hdest : isAbsolute (absolutize st.self.wrkdir dest) = true)
    (hs : Sh.Plain (absolutize st.self.wrkdir src)) (hd : Sh.Plain (absolutize st.self.wrkdir dest))
    (h : copy src dest H st = (.ok (), st')) :
    Cp follows (files (world st.env)) (files (world st'.env)) (steps (absolutize st.self.wrkdir src))
      (steps (absolutize st.self.wrkdir dest)) := by
  obtain ⟨hcode, hworld⟩ := pair_hosts hH hM hsrc hs (hM.calls_copy hs hd) h
  rw [hworld]
  exact hM.copy _ _ _ hsrc hdest hcode

end

end ScpFs

namespace SftpFs

section
variable {σ ω α : Type} {M : Sh.Machine ω} {world : σ → ω} {files : ω → Tree Str α} {follows : Bool} {H : Handler Ssh σ}
  {st st' : St Ssh SftpFs σ} {src dest : PathBuf}

theorem stat_leaves (hH : Hosts M world H) (path : PathBuf) : Runs H (Leaves world) (stat path : Remote SftpFs σ _) :=
  runs_leaves (υ := fun _ => True) hH fun k => stat_built (looks_sees k.handles) path

theorem existsOrFalse_leaves (hH : Hosts M world H) (path : PathBuf) :
    Runs H (Leaves world) (existsOrFalse path : Remote SftpFs σ _) :=
  runs_leaves (υ := fun _ => True) (b := true) hH fun k => existsOrFalse_built (looks_sees k.handles) path

theorem copy_hosts (hH : Hosts M world H) (hM : Posix M files follows)
    (hsrc : isAbsolute (absolutize st.self.wrkdir src) = true)
    (hdest : isAbsolute (absolutize st.self.wrkdir dest) = true)
    (hs : Sh.Plain (absolutize st.self.wrkdir src)) (hd : Sh.Plain (absolutize st.self.wrkdir dest))
    (h : copy src dest H st = (.ok (), st')) :
    Cp follows (files (world st.env)) (files (world st'.env)) (steps (absolutize st.self.wrkdir src))
      (steps (absolutize st.self.wrkdir dest)) := by
  unfold copy at h
  obtain ⟨_, st₁, h₁, h⟩ := bind_eq_ok h
  have hleft₁ : Leaves world st st₁ := by simpa [h₁] using checkConnection_leaves hH st
  rw [bind_ok self_run] at h
  obtain ⟨b, st₂, h₂, h⟩ := bind_eq_ok h
  have hleft₂ : Leaves world st₁ st₂ := by
    have := existsOrFalse_leaves hH (absolutize st₁.self.wrkdir src) st₁
    rwa [h₂] at this
  have hleft := leaves_stable.trans hleft₁ hleft₂
  cases b with
  | false => cases h
  | true =>
    rw [if_pos rfl, bind_ok self_run, hleft.self, hleft₁.self] at h
    obtain ⟨session, -, h⟩ := unwrap_self_eq_ok h
    obtain ⟨r, st₃, h₃, h⟩ := bind_eq_ok h
    cases r with
    | error err => cases h
    | ok p =>
      obtain ⟨rc, out⟩ := p
      have h : (if rc = 0 then pure () else Prog.throw _ : Remote SftpFs σ Unit) H st₃ = (.ok (), st') := h
      by_cases hrc : rc = 0
      · rw [if_pos hrc] at h
        cases h
        obtain ⟨hcode, hworld⟩ := hH.rc (hM.calls_copy hs hd) (attempt_eq_ok h₃)
        rw [hleft.world] at hcode hworld
        rw [hrc] at hcode
        rw [hworld]
        exact hM.copy _ _ _ hsrc hdest (toUInt32_eq_zero_iff.1 hcode.symm)
      · rw [if_neg hrc] at h
        cases h

end

end SftpFs

/-! ## What a call that succeeded has done -/

section
variable {σ ω α : Type} {M : Sh.Machine ω} {world : σ → ω} {files : ω → Tree Str α} {follows : Bool} {H : Handler Ssh σ}

/-- **When no directory is at the destination, a move that succeeded has put the source there exactly if the
destination is another place that is not reached through the source, and a copy that succeeded has made it a copy of
the source. When a directory is there, they have not.** -/
theorem copy_mov_post (hH : Hosts M world H) (hM : Posix M files follows) {wrkdir src dest : PathBuf}
    (hsrc : isAbsolute (absolutize wrkdir src) = true) (hdest : isAbsolute (absolutize wrkdir dest) = true)
    (hs : Sh.Plain (absolutize wrkdir src)) (hd : Sh.Plain (absolutize wrkdir dest)) :
    (∀ st st' : St Ssh ScpFs σ, st.self.wrkdir = wrkdir → ScpFs.mov src dest H st = (.ok (), st') →
      let A := steps (absolutize wrkdir src)
      let B := steps (absolutize wrkdir dest)
      let t := files (world st.env)
      let t' := files (world st'.env)
      (¬ Opens t B → (MvPost t t' A B ↔ Clear t A B)) ∧ (IntoDir t A B → ¬ MvPost t t' A B)) ∧
    (∀ st st' : St Ssh ScpFs σ, st.self.wrkdir = wrkdir → ScpFs.copy src dest H st = (.ok (), st') →
      let A := steps (absolutize wrkdir src)
      let B := steps (absolutize wrkdir dest)
      let t := files (world st.env)
      let t' := files (world st'.env)
      (¬ Opens t B → CpPost follows t t' A B) ∧ (IntoDir t A B → ¬ CpPost follows t t' A B)) ∧
    (∀ st st' : St Ssh SftpFs σ, st.self.wrkdir = wrkdir → SftpFs.copy src dest H st = (.ok (), st') →
      let A := steps (absolutize wrkdir src)
      let B := steps (absolutize wrkdir dest)
      let t := files (world st.env)
      let t' := files (world st'.env)
      (¬ Opens t B → CpPost follows t t' A B) ∧ (IntoDir t A B → ¬ CpPost follows t t' A B)) := by
  refine ⟨fun st st' hwrk h => ?_, fun st st' hwrk h => ?_, fun st st' hwrk h => ?_⟩
  · subst hwrk
    have hmv := ScpFs.mov_hosts hH hM hsrc hdest hs hd h
    exact ⟨hmv.post_iff (hM.closed _) (hM.closed _), hmv.not_into (hM.closed _) (hM.closed _) (hM.bounded _)⟩
  · subst hwrk
    have hcp := ScpFs.copy_hosts hH hM hsrc hdest hs hd h
    exact ⟨hcp.post (hM.closed _), hcp.not_into (hM.closed _) (hM.closed _) (hM.bounded _)⟩
  · subst hwrk
    have hcp := SftpFs.copy_hosts hH hM hsrc hdest hs hd h
    exact ⟨hcp.post (hM.closed _), hcp.not_into (hM.closed _) (hM.closed _) (hM.bounded _)⟩

end

/-! ## A file beside a directory -/

/-- `/srv/a` is a file and `/srv/d` a directory; then the file is moved to `/srv/b`, moved to `/srv/d`, or copied to
`/srv/b`. -/
inductive SampleFiles where
  | start | moved | inside | copied
deriving DecidableEq

namespace SampleFiles

def srv : Str := ['s', 'r', 'v']
def a : Str := ['a']
def b : Str := ['b']
def d : Str := ['d']

def places : SampleFiles → List (Place Str)
  | start => [[srv, a]]
  | moved => [[srv, b]]
  | inside => [[srv, d, a]]
  | copied => [[srv, a], [srv, b]]

def tree (w : SampleFiles) : Tree Str Str := fun p =>
  if p = [] ∨ p = [srv] ∨ p = [srv, d] then some .dir else if p ∈ w.places then some (.file []) else none

def atA : PathBuf := "/srv/a".toList
def atB : PathBuf := "/srv/b".toList
def atD : PathBuf := "/srv/d".toList

def mv (w : SampleFiles) (src dest : PathBuf) : Option SampleFiles :=
  if w = start ∧ src = atA then (if dest = atB then some moved else if dest = atD then some inside else none) else none

def cp (w : SampleFiles) (src dest : PathBuf) : Option SampleFiles :=
  if w = start ∧ src = atA ∧ dest = atB then some copied else none

/-- A utility that succeeds when there is a world after it. -/
def exit (w : SampleFiles) (o : Option SampleFiles) : Str × UInt8 × SampleFiles :=
  ([], if o.isSome then 0 else 1, o.getD w)

def machine : Sh.Machine SampleFiles where
  home := ['/']
  enter _ _ _ := none
  utility w _ ws :=
    match ws with
    | [_, _, p] => ([], if p = atA ∧ w = start then 0 else 1, w)
    | [cmd, _, src, dest] => if cmd = "mv".toList then exit w (mv w src dest) else exit w (cp w src dest)
    | _ => ([], 127, w)

theorem tree_dir {w : SampleFiles} {p : Place Str} (h : p = [] ∨ p = [srv] ∨ p = [srv, d]) : w.tree p = some .dir :=
  if_pos h

/-- Where something stands, a directory stands above. -/
theorem closed (w : SampleFiles) : Closed w.tree := by
  refine ⟨rfl, fun p n h => ?_⟩
  have hcases : p ++ [n] ∈ [srv] :: [srv, d] :: w.places := by
    unfold tree at h
    split at h
    · rename_i hdir
      rcases hdir with hdir | hdir | hdir
      · exact absurd hdir (by simp)
      · simp [hdir]
      · simp [hdir]
    · split at h
      · rename_i hfile
        simp [hfile]
      · exact absurd rfl h
  have hp : p ∈ ([srv] :: [srv, d] :: w.places).map List.dropLast :=
    List.mem_map.2 ⟨_, hcases, List.dropLast_concat⟩
  apply tree_dir
  cases w
  · exact (show p = [] ∨ p = [srv] by simpa [places] using hp).imp id Or.inl
  · exact (show p = [] ∨ p = [srv] by simpa [places] using hp).imp id Or.inl
  · simpa [places] using hp
  · exact (show p = [] ∨ p = [srv] by simpa [places] using hp).imp id Or.inl

theorem bounded (w : SampleFiles) : Bounded w.tree := by
  refine ⟨3, fun p h => ?_⟩
  unfold tree at h
  split at h
  · rename_i hdir
    rcases hdir with rfl | rfl | rfl
    · simp
    · simp
    · simp
  · split at h
    · rename_i hfile
      have hall : ∀ w : SampleFiles, ∀ q ∈ w.places, q.length ≤ 3 := by
        intro w
        cases w <;> simp [places]
      exact hall w p hfile
    · exact absurd rfl h

theorem srv_reached (w : SampleFiles) : Reaches w.tree [] [.empty, .name srv] [srv] :=
  .empty (.enter rfl (.done rfl))

theorem names_a (w : SampleFiles) : Names w.tree (steps atA) [srv, a] :=
  .entry (rfl : lastName (steps atA) = some ([.empty, .name srv], a, false)) w.srv_reached rfl (by simp)

theorem names_b (w : SampleFiles) : Names w.tree (steps atB) [srv, b] :=
  .entry (rfl : lastName (steps atB) = some ([.empty, .name srv], b, false)) w.srv_reached rfl (by simp)

theorem reaches_d (w : SampleFiles) : Reaches w.tree [] (steps atD) [srv, d] :=
  .empty (.enter rfl (.enter rfl (.done rfl)))

/-- Nothing is at `/srv/b` to start with. -/
theorem b_not_open : ¬ Opens start.tree (steps atB) := by
  rintro ⟨p, hp, hdir⟩
  have hnone : start.tree [srv, b] = none := by simp [tree, places, srv, a, b, d]
  have hb : Reaches start.tree [] (steps atB) [srv, b] := .empty (.enter rfl (.missing hnone))
  rw [hp.det hb, hnone] at hdir
  cases hdir

theorem exit_zero {w : SampleFiles} {o : Option SampleFiles} (h : (exit w o).2.1 = 0) :
    ∃ w', o = some w' ∧ (exit w o).2.2 = w' := by
  cases o with
  | some w' => exact ⟨w', rfl, rfl⟩
  | none => cases h

theorem mv_cases {w w' : SampleFiles} {src dest : PathBuf} (h : mv w src dest = some w') :
    w = start ∧ src = atA ∧ ((dest = atB ∧ w' = moved) ∨ (dest = atD ∧ w' = inside)) := by
  unfold mv at h
  split at h
  · rename_i hsrc
    refine ⟨hsrc.1, hsrc.2, ?_⟩
    split at h
    · rename_i hdest
      exact Or.inl ⟨hdest, (Option.some.inj h).symm⟩
    · split at h
      · rename_i hdest
        exact Or.inr ⟨hdest, (Option.some.inj h).symm⟩
      · cases h
  · cases h

theorem cp_cases {w w' : SampleFiles} {src dest : PathBuf} (h : cp w src dest = some w') :
    w = start ∧ src = atA ∧ dest = atB ∧ w' = copied := by
  unfold cp at h
  split at h
  · rename_i hsrc
    exact ⟨hsrc.1, hsrc.2.1, hsrc.2.2, (Option.some.inj h).symm⟩
  · cases h

theorem not_prefix_self {p q : Place Str} (h : ¬ q <+: p) : p ≠ q := by
  rintro rfl
  exact h (List.prefix_refl p)

theorem moved_to_b : Moved start.tree moved.tree [srv, a] [srv, b] where
  apart := by unfold Apart; decide
  there r := by cases r <;> simp [tree, places, srv, a, b, d]
  gone r := by simp [tree, places, srv, a, b, d]
  elsewhere p hs hl := by simp [tree, places, not_prefix_self hs, not_prefix_self hl]

theorem moved_to_d : Moved start.tree inside.tree [srv, a] [srv, d, a] where
  apart := by unfold Apart; decide
  there r := by cases r <;> simp [tree, places, srv, a, d]
  gone r := by simp [tree, places, srv, a, d]
  elsewhere p hs hl := by simp [tree, places, not_prefix_self hs, not_prefix_self hl]

theorem copied_to_b : Copied start.tree copied.tree [srv, a] [srv, b] where
  apart := by unfold Apart; decide
  there r := by cases r <;> simp [tree, places, srv, a, b, d]
  elsewhere p hl := by simp [tree, places, not_prefix_self hl]

theorem start_a : start.tree [srv, a] = some (.file []) := by simp [tree, places, srv, a, d]

theorem posix : Posix machine tree false where
  closed := closed
  bounded := bounded
  existsPath_silent _ _ := rfl
  existsPath_same _ _ := rfl
  mov_silent _ _ _ := rfl
  copy_silent _ _ _ := rfl
  mov w src dest _ _ h := by
    obtain ⟨w', hmv, hworld⟩ := exit_zero h
    have hsne : start.tree [srv, a] ≠ none := by simp [start_a]
    obtain ⟨rfl, rfl, ⟨rfl, rfl⟩ | ⟨rfl, rfl⟩⟩ := mv_cases hmv
    · refine .onto start.names_a hsne b_not_open start.names_b (fun c n h => ?_) (Or.inr moved_to_b)
      cases h
    · exact .into start.names_a hsne start.reaches_d rfl
        (rfl : lastName (steps atA) = some ([.empty, .name srv], a, false))
        (Or.inr moved_to_d)
  copy w src dest _ _ h := by
    obtain ⟨w', hcp, hworld⟩ := exit_zero h
    have hsne : start.tree [srv, a] ≠ none := by simp [start_a]
    obtain ⟨rfl, rfl, rfl, rfl⟩ := cp_cases hcp
    refine .onto start.names_a start.names_a hsne b_not_open (Or.inl ⟨start.names_b, fun c n h => ?_⟩)
      (Or.inr ⟨copied_to_b.apart, copied_to_b⟩)
    cases h

/-- The way to `/srv/b` does not lead through the file. -/
theorem clear_b : Clear start.tree (steps atA) (steps atB) := by
  refine ⟨[srv, a], [srv, b], start.names_a, start.names_b, by decide, ?_⟩
  have hsrv : without start.tree [srv, SampleFiles.a] [srv] = some .dir := without_of_not (by decide)
  exact .entry (e := [srv]) (rfl : lastName (steps atB) = some ([.empty, .name srv], b, false))
    (.empty (.enter hsrv (.done hsrv))) hsrv (by simp)

theorem into_d : IntoDir start.tree (steps atA) (steps atD) where
  fresh := ⟨[srv, d], [.empty, .name srv], a, false, start.reaches_d, rfl, by decide,
    Or.inl (by simp [tree, places, srv, a, d])⟩
  other s l hs hl _ := by
    have hd : Names start.tree (steps atD) [srv, d] :=
      .entry (rfl : lastName (steps atD) = some ([.empty, .name srv], d, false)) start.srv_reached rfl (by simp)
    rw [hl.det start.closed hd]
    rfl

/-- What a STAT request tells of a file. -/
def told (_ : SampleFiles) (_ : PathBuf) : Except SshError FileStat := .ok ⟨some 0, none, none, none, none, none⟩

def server : Handler Ssh (SampleFiles × Str) := site machine told fun w _ _ => w

def scpClient : St Ssh ScpFs (SampleFiles × Str) := ⟨⟨some ⟨0⟩, ['/'], SshOpts.new "h".toList⟩, (start, []), []⟩

def sftpClient : St Ssh SftpFs (SampleFiles × Str) :=
  ⟨⟨some ⟨0⟩, some ⟨0⟩, ['/'], SshOpts.new "h".toList⟩, (start, []), []⟩

end SampleFiles

open SampleFiles in
/-- Moved and copied to a name that is free. -/
theorem copy_mov_post_free :
    (∃ st', ScpFs.mov atA atB server scpClient = (.ok (), st') ∧
        MvPost start.tree st'.env.1.tree (steps atA) (steps atB)) ∧
      (∃ st', ScpFs.copy atA atB server scpClient = (.ok (), st') ∧
        CpPost false start.tree st'.env.1.tree (steps atA) (steps atB)) ∧
      ∃ st', SftpFs.copy atA atB server sftpClient = (.ok (), st') ∧
        CpPost false start.tree st'.env.1.tree (steps atA) (steps atB) := by
  obtain ⟨st₁, hmov⟩ : ∃ st', ScpFs.mov atA atB server scpClient = (.ok (), st') :=
    ⟨_, Prod.ext (by decide +kernel) rfl⟩
  obtain ⟨st₂, hcopy⟩ : ∃ st', ScpFs.copy atA atB server scpClient = (.ok (), st') :=
    ⟨_, Prod.ext (by decide +kernel) rfl⟩
  obtain ⟨st₃, hcopy'⟩ : ∃ st', SftpFs.copy atA atB server sftpClient = (.ok (), st') :=
    ⟨_, Prod.ext (by decide +kernel) rfl⟩
  obtain ⟨h₁, h₂, h₃⟩ := @copy_mov_post _ _ _ _ _ _ _ server
    (site_hosts machine told fun w _ _ => w) posix ['/'] atA atB
    rfl rfl (by decide) (by decide)
  exact ⟨⟨st₁, hmov, ((h₁ scpClient st₁ rfl hmov).1 b_not_open).2 clear_b⟩,
    ⟨st₂, hcopy, (h₂ scpClient st₂ rfl hcopy).1 b_not_open⟩, st₃, hcopy', (h₃ sftpClient st₃ rfl hcopy').1 b_not_open⟩

open SampleFiles in
/-- Moved to a directory: the call succeeds, and the file is in the directory. -/
theorem mov_into_directory :
    (ScpFs.mov atA atD server scpClient).1 = .ok () ∧
      ¬ MvPost scpClient.env.1.tree (ScpFs.mov atA atD server scpClient).2.env.1.tree (steps atA) (steps atD) := by
  have hworld : (ScpFs.mov atA atD server scpClient).2.env.1 = inside := by decide +kernel
  refine ⟨by decide +kernel, ?_⟩
  rw [hworld]
  exact (posix.mov start atA atD rfl rfl rfl).not_into start.closed inside.closed inside.bounded into_d

end RemotefsSsh
