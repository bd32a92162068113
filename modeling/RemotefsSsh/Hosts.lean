import RemotefsSsh.ExitCode
import RemotefsSsh.Lib.ShRun
import RemotefsSsh.Quoting
import RemotefsSsh.Sent
import RemotefsSsh.Servers
import RemotefsSsh.Sftp

/-!
# Environments in which a shell runs the lines

`Hosts M world H` says that part of the environment's state is a world for the machine `M`, and that
a shell command that comes back ran its line on it, as far as the line can be read (`Sh.parse`). Of a
line that cannot be read nothing is known.

`site` is such an environment: it keeps a world, and the text that the last command printed.
-/

namespace RemotefsSsh

open Utf8 UnixPath Effect Prog

/-- Calls that only look. -/
def Looks : SshCall → Prop
  | .authenticated _ | .stat .. | .readlink .. | .utcYear => True
  | _ => False

structure Hosts {σ ω : Type} (M : Sh.Machine ω) (world : σ → ω) (H : Handler Ssh σ) : Prop where
  shell : ∀ {κ : Type} (session : SshSession) (line : Str) (st st' : St Ssh κ σ) (s : Sh.Shell ω) (out : Str),
    M.runLine line (world st.env) = some s → performShellCmd session line H st = (.ok out, st') →
      out = s.out ∧ world st'.env = s.world
  looks : ∀ c env, Looks c → world (H.reply c env).2 = world env

/-- Nothing is lost on the way: the session stays up, and every line that can be read comes back. -/
structure Serves {σ ω : Type} (M : Sh.Machine ω) (world : σ → ω) (H : Handler Ssh σ) :
    Prop extends Hosts M world H where
  up : ∀ session env, (H.reply (.authenticated session) env).1 = true
  answers : ∀ {κ : Type} (session : SshSession) (line : Str) (st : St Ssh κ σ) (s : Sh.Shell ω),
    M.runLine line (world st.env) = some s → ∃ st', performShellCmd session line H st = (.ok s.out, st')

/-! ## The commands of the clients -/

namespace ShellCmd

/-- The command a line is about. -/
def words (c : ShellCmd) : List Str := c.front ++ c.paths

theorem commands_eq (c : ShellCmd) : c.commands = c.before ++ (c.words.map Sh.lits :: c.after) := by
  unfold commands words
  rw [List.map_append, List.singleton_append]

/-- The line is one utility of the machine that prints nothing, and then its exit code. -/
structure Calls {ω : Type} (M : Sh.Machine ω) (c : ShellCmd) : Prop where
  withRc : c.withRc = true
  parse : Sh.parse c.line = some [c.words.map Sh.lits, echoStatus]
  utility : ∃ u args, c.words = u :: args ∧ Sh.builtin u = false
  silent : ∀ w, (M.utility w M.home c.words).1 = []

theorem plain_one {p : PathBuf} (h : Sh.Plain p) : ∀ q ∈ [p], Sh.Plain q := by
  intro q hq
  rwa [List.mem_singleton.1 hq]

theorem plain_pair {p q : PathBuf} (hp : Sh.Plain p) (hq : Sh.Plain q) : ∀ r ∈ [p, q], Sh.Plain r := by
  intro r hr
  rcases List.mem_cons.1 hr with rfl | hr
  · exact hp
  · exact plain_one hq r hr

theorem calls {ω : Type} {M : Sh.Machine ω} {c : ShellCmd} (hc : c.withRc = true) (ha : c.AroundPaths)
    (hp : ∀ p ∈ c.paths, Sh.Plain p) (hs : ∀ w, (M.utility w M.home c.words).1 = []) : c.Calls M := by
  have hparse := (line_reads_iff c ha).2 hp
  rw [commands_eq] at hparse
  refine ⟨hc, ?_, ?_, hs⟩
  · rw [hparse]
    cases c with
    | pwd => cases hc
    | changeDir dir => cases hc
    | listDir path => cases hc
    | statDir path => cases hc
    | statFile path => cases hc
    | _ => rfl
  · cases c with
    | pwd => exact ha.elim
    | execAt p cmd => exact ha.elim
    | changeDir dir => cases hc
    | _ => exact ⟨_, _, rfl, by decide⟩

end ShellCmd

/-- The shell prints the exit code and nothing in front of it. -/
theorem ShellCmd.Calls.runLine {ω : Type} {M : Sh.Machine ω} {c : ShellCmd} (hc : c.Calls M) (w : ω) :
    ∃ s, M.runLine c.line w = some s ∧ s.out = framed [] (M.utility w M.home c.words).2.1.toUInt32 ∧
      s.world = (M.utility w M.home c.words).2.2 := by
  obtain ⟨-, hparse, ⟨u, args, hwords, hu⟩, hsilent⟩ := hc
  have hsilent := hsilent w
  rw [hwords] at hparse hsilent ⊢
  refine ⟨_, M.runLine_of_parse hparse w, ?_⟩
  rw [echoStatus, show "echo".toList = Sh.echoWord from rfl, M.run_utility_status hu]
  refine ⟨?_, rfl⟩
  show (M.utility w M.home (u :: args)).1 ++ (decimal (M.utility w M.home (u :: args)).2.1.toNat ++ ['\n']) = _
  rw [hsilent, framed, UInt8.toNat_toUInt32]

section
variable {σ ω κ : Type} {M : Sh.Machine ω} {world : σ → ω} {H : Handler Ssh σ} {st st' : St Ssh κ σ}

/-- What comes back from a utility run for its exit code. -/
theorem Hosts.reply (hH : Hosts M world H) {c : ShellCmd} (hc : c.Calls M) {session : SshSession} {reply : Str}
    (h : performShellCmd session c.line H st = (.ok reply, st')) :
    reply = framed [] (M.utility (world st.env) M.home c.words).2.1.toUInt32 ∧
      world st'.env = (M.utility (world st.env) M.home c.words).2.2 := by
  obtain ⟨s, hs, hout, hworld⟩ := hc.runLine (world st.env)
  obtain ⟨hreply, hworld'⟩ := hH.shell _ _ _ _ _ _ hs h
  exact ⟨hreply.trans hout, hworld'.trans hworld⟩

theorem toUInt32_eq_zero_iff {code : UInt8} : code.toUInt32 = 0 ↔ code = 0 := by
  constructor
  · intro h
    exact UInt8.toNat_inj.1 (by simpa using congrArg UInt32.toNat h)
  · intro h
    rw [h]
    rfl

/-- A utility run for its exit code. -/
theorem Hosts.rc (hH : Hosts M world H) {c : ShellCmd} (hc : c.Calls M) {session : SshSession} {rc : UInt32} {out : Str}
    (h : performShellCmdWithRc session c.text H st = (.ok (rc, out), st')) :
    rc = (M.utility (world st.env) M.home c.words).2.1.toUInt32 ∧
      world st'.env = (M.utility (world st.env) M.home c.words).2.2 := by
  unfold performShellCmdWithRc at h
  rw [ShellCmd.line_of_withRc hc.withRc] at h
  obtain ⟨reply, st₁, h₁, h⟩ := bind_eq_ok h
  obtain ⟨hreply, hworld⟩ := hH.reply hc h₁
  rw [hreply, ofOut_run, rcOfOutput_framed_blank blank_nil] at h
  cases h
  exact ⟨rfl, hworld⟩

theorem Serves.rc (hH : Serves M world H) {c : ShellCmd} (hc : c.Calls M) (session : SshSession) (st : St Ssh κ σ) :
    ∃ r st', performShellCmdWithRc session c.text H st = (.ok r, st') := by
  obtain ⟨s, hs, hout, -⟩ := hc.runLine (world st.env)
  obtain ⟨st₁, h₁⟩ := hH.answers session c.line st s hs
  unfold performShellCmdWithRc
  rw [ShellCmd.line_of_withRc hc.withRc, bind_ok h₁, ofOut_run, hout, rcOfOutput_framed_blank blank_nil]
  exact ⟨_, _, rfl⟩

/-- A utility whose output is read. -/
theorem Hosts.output (hH : Hosts M world H) {c : ShellCmd} {u : Str} {args : List Str} (hwords : c.words = u :: args)
    (hu : Sh.builtin u = false) (hparse : Sh.parse c.line = some [c.words.map Sh.lits]) (hc : c.withRc = false)
    {session : SshSession} {out : Str} (h : performShellCmd session c.text H st = (.ok out, st')) :
    out = (M.utility (world st.env) M.home c.words).1 ∧
      world st'.env = (M.utility (world st.env) M.home c.words).2.2 := by
  rw [ShellCmd.line_of_bare hc] at h
  rw [hwords] at hparse ⊢
  obtain ⟨hout, hworld⟩ := hH.shell _ _ _ _ _ _ (M.runLine_of_parse hparse _) h
  rw [M.run_utility hu] at hout hworld
  exact ⟨hout, hworld⟩

/-- The `cd` of `change_dir`. -/
theorem Hosts.cd (hH : Hosts M world H) {dir : PathBuf} (hdir : Sh.Plain dir) {session : SshSession} {out : Str}
    (h : performShellCmd session (ShellCmd.changeDir dir).text H st = (.ok out, st')) :
    world st'.env = world st.env ∧
      ((∃ d, M.enter (world st.env) M.home dir = some d ∧ out = decimal 0 ++ '\n' :: (d ++ ['\n'])) ∨
        (M.enter (world st.env) M.home dir = none ∧ out = decimal 1 ++ '\n' :: (M.home ++ ['\n']))) := by
  have hparse : Sh.parse (ShellCmd.changeDir dir).line =
      some [[Sh.lits Sh.cdWord, Sh.lits dir], [Sh.lits Sh.echoWord, [.status]], [Sh.lits Sh.pwdWord]] :=
    (ShellCmd.line_reads_iff (.changeDir dir) trivial).2 (ShellCmd.plain_one hdir)
  rw [ShellCmd.line_of_bare rfl] at h
  obtain ⟨hout, hworld⟩ := hH.shell _ _ _ _ _ _ (M.runLine_of_parse hparse _) h
  rw [M.run_cd_status_pwd] at hout hworld
  cases henter : M.enter (world st.env) M.home dir with
  | some d =>
    rw [henter] at hout hworld
    exact ⟨hworld, Or.inl ⟨d, rfl, hout⟩⟩
  | none =>
    rw [henter] at hout hworld
    exact ⟨hworld, Or.inr ⟨rfl, hout⟩⟩

end

/-! ## Programs that only look -/

/-- The record and the world are as they were. -/
structure Leaves {κ σ ω : Type} (world : σ → ω) (st st' : St Ssh κ σ) : Prop where
  self : st'.self = st.self
  world : world st'.env = world st.env

section
variable {σ ω κ : Type} {M : Sh.Machine ω} {world : σ → ω} {H : Handler Ssh σ}

theorem leaves_stable : Stable (F := Ssh) (Leaves world : St Ssh κ σ → St Ssh κ σ → Prop) where
  refl _ := ⟨rfl, rfl⟩
  trans h h' := ⟨h'.self.trans h.self, h'.world.trans h.world⟩

theorem looks_sees (hs : Handles) : (Scope.requests Looks).Sees hs :=
  ⟨fun _ _ => trivial, fun _ _ _ => trivial, fun _ _ _ => trivial⟩

/-- A program that only looks. -/
theorem runs_leaves (hH : Hosts M world H) {α : Type} {υ : κ → Prop} {b : Bool} {Q : κ → α → Prop} {m : Remote κ σ α}
    (hm : ∀ k, Built (Piece (.requests Looks)) (υ k) Refused k b [] (Q k) m) : Runs H (Leaves world) m :=
  only_requests hm H _ leaves_stable fun c hc st => ⟨rfl, hH.looks c st.env hc⟩

theorem ScpFs.checkConnection_leaves (hH : Hosts M world H) :
    Runs H (Leaves world) (ScpFs.checkConnection : Remote ScpFs σ _) :=
  runs_leaves (υ := fun _ => True) hH fun k => checkConnection_built (looks_sees k.handles)

theorem SftpFs.checkConnection_leaves (hH : Hosts M world H) :
    Runs H (Leaves world) (SftpFs.checkConnection : Remote SftpFs σ _) :=
  runs_leaves (υ := fun _ => True) hH fun k => checkConnection_built (looks_sees k.handles)

end

/-! ## The client's steps -/

namespace ScpFs

section
variable {σ ω : Type} {M : Sh.Machine ω} {world : σ → ω} {H : Handler Ssh σ} {st st' : St Ssh ScpFs σ}

theorem checkConnection_looks (hH : Hosts M world H) (h : checkConnection H st = (.ok (), st')) :
    st'.self = st.self ∧ world st'.env = world st.env ∧ ∃ s, st.self.session = some s := by
  obtain ⟨s, hs, h₁⟩ := checkConnection_eq_ok h
  obtain ⟨-, henv, -, hself⟩ := ask_ok h₁
  exact ⟨hself, by rw [henv]; exact hH.looks _ _ trivial, s, hs⟩

theorem performShellCmdWithRc_self {session : SshSession} {cmd : Str} {r : UInt32 × Str}
    (h : (performShellCmdWithRc session cmd : Remote ScpFs σ _) H st = (.ok r, st')) : st'.self = st.self := by
  unfold performShellCmdWithRc at h
  obtain ⟨reply, st₁, h₁, h⟩ := bind_eq_ok h
  rw [ofOut_run] at h
  cases congrArg Prod.snd h
  exact (performShellCmd_ok h₁).1

/-- A command that succeeded exited with 0. -/
theorem runRc_hosts (hH : Hosts M world H) {c : ShellCmd} (hc : c.Calls M) {bad : RemoteError} {kind : RemoteErrorType}
    (h : runRc c bad kind H st = (.ok (), st')) :
    st'.self = st.self ∧ (M.utility (world st.env) M.home c.words).2.1 = 0 ∧
      world st'.env = (M.utility (world st.env) M.home c.words).2.2 := by
  obtain ⟨s, out, -, h⟩ := runRc_eq_ok h
  obtain ⟨hcode, hworld⟩ := hH.rc hc h
  exact ⟨performShellCmdWithRc_self h, toUInt32_eq_zero_iff.1 hcode.symm, hworld⟩

/-- A test that was answered. -/
theorem runTest_hosts (hH : Hosts M world H) {c : ShellCmd} (hc : c.Calls M) {b : Bool}
    (h : runTest c H st = (.ok b, st')) :
    st'.self = st.self ∧ b = decide ((M.utility (world st.env) M.home c.words).2.1 = 0) ∧
      world st'.env = (M.utility (world st.env) M.home c.words).2.2 := by
  obtain ⟨s, rc, out, -, hrun, rfl⟩ := runTest_eq_ok h
  obtain ⟨hcode, hworld⟩ := hH.rc hc hrun
  refine ⟨performShellCmdWithRc_self hrun, ?_, hworld⟩
  rw [hcode]
  exact decide_eq_decide.2 toUInt32_eq_zero_iff

theorem existsPath_hosts (hH : Hosts M world H) {path : PathBuf}
    (hc : (ShellCmd.existsPath (absolutize st.self.wrkdir path)).Calls M) {b : Bool}
    (h : existsPath path H st = (.ok b, st')) :
    st'.self = st.self ∧
      b = decide ((M.utility (world st.env) M.home (ShellCmd.existsPath
        (absolutize st.self.wrkdir path)).words).2.1 = 0) ∧
      world st'.env = (M.utility (world st.env) M.home
        (ShellCmd.existsPath (absolutize st.self.wrkdir path)).words).2.2 := by
  unfold existsPath at h
  obtain ⟨_, st₁, h₁, h⟩ := bind_eq_ok h
  obtain ⟨hself, hworld, -⟩ := checkConnection_looks hH h₁
  rw [bind_ok self_run, hself] at h
  obtain ⟨hself', hb, hworld'⟩ := runTest_hosts hH hc h
  rw [hworld] at hb hworld'
  exact ⟨hself'.trans hself, hb, hworld'⟩

theorem existsOrFalse_hosts (hH : Hosts M world H) {path : PathBuf}
    (hc : (ShellCmd.existsPath (absolutize st.self.wrkdir path)).Calls M)
    (h : existsOrFalse path H st = (.ok true, st')) :
    st'.self = st.self ∧
      (M.utility (world st.env) M.home (ShellCmd.existsPath (absolutize st.self.wrkdir path)).words).2.1 = 0 ∧
      world st'.env = (M.utility (world st.env) M.home
        (ShellCmd.existsPath (absolutize st.self.wrkdir path)).words).2.2 := by
  unfold existsOrFalse at h
  obtain ⟨r, st₁, h₁, h⟩ := bind_eq_ok h
  cases r with
  | error err => cases h
  | ok b =>
    cases h
    obtain ⟨hself, hb, hworld⟩ := existsPath_hosts hH hc (attempt_eq_ok h₁)
    exact ⟨hself, of_decide_eq_true hb.symm, hworld⟩

/-! ### Steps that come back -/

theorem checkConnection_serves (hH : Serves M world H) {session : SshSession} (hs : st.self.session = some session) :
    ∃ st', checkConnection H st = (.ok (), st') := by
  unfold checkConnection isConnected
  rw [bind_run, bind_ok self_run, hs]
  dsimp only
  rw [ask_run, hH.up]
  exact ⟨_, rfl⟩

theorem runTest_serves (hH : Serves M world H) {c : ShellCmd} (hc : c.Calls M) {session : SshSession}
    (hs : st.self.session = some session) : ∃ b st', runTest c H st = (.ok b, st') := by
  obtain ⟨⟨rc, out⟩, st₁, h₁⟩ := hH.rc hc session st
  unfold runTest
  rw [bind_ok self_run, hs, bind_ok (unwrap_run session), bind_ok (attempt_ok h₁)]
  exact ⟨_, _, rfl⟩

theorem existsPath_serves (hH : Serves M world H) {path : PathBuf}
    (hc : (ShellCmd.existsPath (absolutize st.self.wrkdir path)).Calls M) {session : SshSession}
    (hs : st.self.session = some session) : ∃ b st', existsPath path H st = (.ok b, st') := by
  obtain ⟨st₁, h₁⟩ := checkConnection_serves hH hs
  obtain ⟨hself₁, -, -⟩ := checkConnection_looks hH.toHosts h₁
  unfold existsPath
  rw [bind_ok h₁, bind_ok self_run, hself₁]
  exact runTest_serves hH hc (hself₁ ▸ hs)

end

end ScpFs

namespace SftpFs

section
variable {σ α : Type} {H : Handler Ssh σ} {st st' : St Ssh SftpFs σ}

theorem withSftp_eq_ok {path : PathBuf} {op : SshSftp → PathBuf → Remote SftpFs σ α} {a : α}
    (h : withSftp path op H st = (.ok a, st')) :
    ∃ sftp, st.self.sftp = some sftp ∧ op sftp (absolutize st.self.wrkdir path) H st = (.ok a, st') := by
  unfold withSftp at h
  rw [bind_ok self_run] at h
  cases hs : st.self.sftp with
  | none => rw [hs] at h; cases h
  | some sftp =>
    rw [hs] at h
    have h : (self >>= fun fs => op sftp (absolutize fs.wrkdir path)) H st = (.ok a, st') := h
    rw [bind_ok self_run] at h
    exact ⟨sftp, rfl, h⟩

theorem orKind_eq_ok {kind : RemoteErrorType} {m : Remote SftpFs σ (Except SshError α)} {a : α}
    (h : orKind kind m H st = (.ok a, st')) : m H st = (.ok (.ok a), st') := by
  unfold orKind at h
  obtain ⟨r, st₁, h₁, h⟩ := bind_eq_ok h
  cases r with
  | error err => cases h
  | ok b => cases h; exact h₁

end

end SftpFs

/-! ## A server with a shell -/

/-- The world, and what the last command printed. The shell runs the lines it can read on `M`; a SETSTAT
request is carried out by `setstat`, a STAT request answered by `stat`. -/
def site {ω : Type} (M : Sh.Machine ω) (stat : ω → PathBuf → Except SshError FileStat)
    (setstat : ω → PathBuf → FileStat → ω) : Handler Ssh (ω × Str) where
  reply
    | .channelExec _ line, (w, _) => (.ok (), ((M.runLine line w).map fun s => (s.world, s.out)).getD (w, []))
    | .channelReadToString _, (w, out) => (.ok out, (w, out))
    | .stat _ p, (w, out) => (stat w p, (w, out))
    | .setstat _ p fs, (w, out) => (.ok (), (setstat w p fs, out))
    | c, s => (okReply c, s)

theorem site_hosts {ω : Type} (M : Sh.Machine ω) (stat : ω → PathBuf → Except SshError FileStat)
    (setstat : ω → PathBuf → FileStat → ω) : Hosts M Prod.fst (site M stat setstat) where
  shell session line st st' s out hs h := by
    cases h
    have hrun : (((M.runLine line st.env.1).map fun s => (s.world, s.out)).getD (st.env.1, [])) = (s.world, s.out) := by
      rw [show M.runLine line st.env.1 = some s from hs]
      rfl
    exact ⟨congrArg Prod.snd hrun, congrArg Prod.fst hrun⟩
  looks c env hc := by
    cases c with
    | authenticated s => rfl
    | stat f p => rfl
    | readlink f p => rfl
    | utcYear => rfl
    | _ => exact hc.elim

/-- Nothing is lost on the way to a site. -/
theorem site_serves {ω : Type} (M : Sh.Machine ω) (stat : ω → PathBuf → Except SshError FileStat)
    (setstat : ω → PathBuf → FileStat → ω) : Serves M Prod.fst (site M stat setstat) where
  toHosts := site_hosts M stat setstat
  up _ _ := rfl
  answers session line st s hs := by
    have hs : M.runLine line st.env.1 = some s := hs
    have hrun : ((M.runLine line st.env.1).map fun s => (s.world, s.out)).getD (st.env.1, []) = (s.world, s.out) := by
      rw [hs]
      rfl
    refine ⟨_, Prod.ext ?_ rfl⟩
    show Out.ok (((M.runLine line st.env.1).map fun s => (s.world, s.out)).getD (st.env.1, [])).2 = _
    rw [hrun]

end RemotefsSsh
