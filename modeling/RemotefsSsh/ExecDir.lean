import RemotefsSsh.Hosts
import RemotefsSsh.Sent
import RemotefsSsh.Sftp

/-!
# Where `exec` runs its command (ssh/commons.rs:341-381, ssh/scp.rs:566, ssh/sftp.rs:394)

The line is `cd "w"; cmd; echo $?`: what follows the `cd` is run whether or not it succeeds. So the
command is run in the working directory exactly when that can still be entered (`exec_in_wrkdir_iff`).
Which lines a shell begins to run is left open (`Reads`): `cmd` is any text, not only simple commands, and with a
syntax error in what the shell reads first nothing is run.
-/

namespace RemotefsSsh

open Utf8 UnixPath Effect Prog

/-! ## The lines of an `exec` -/

/-- No other line is sent, and the record is as it was. -/
structure SendsOnly {κ σ : Type} (line : Str) (st st' : St Ssh κ σ) : Prop where
  self : st'.self = st.self
  log : ∃ new, st'.log = st.log ++ new ∧ ∀ l ∈ linesOf new, l = line

section
variable {κ σ : Type} {H : Handler Ssh σ} {line : Str}

theorem sendsOnly_stable : Stable (F := Ssh) (SendsOnly line : St Ssh κ σ → St Ssh κ σ → Prop) where
  refl st := ⟨rfl, [], (List.append_nil _).symm, by simp [linesOf]⟩
  trans := by
    rintro a b c ⟨hs, n, hn, hl⟩ ⟨hs', n', hn', hl'⟩
    refine ⟨hs'.trans hs, n ++ n', by rw [hn', hn, List.append_assoc], fun l hmem => ?_⟩
    rw [linesOf_append] at hmem
    rcases List.mem_append.1 hmem with hmem | hmem
    · exact hl l hmem
    · exact hl' l hmem

theorem asked_sendsOnly {c : SshCall} (hc : ∀ ch cmd, c = .channelExec ch cmd → cmd = line) (st : St Ssh κ σ) :
    SendsOnly line st (asked H c st) := by
  refine ⟨rfl, _, rfl, fun l hl => ?_⟩
  cases c with
  | channelExec ch cmd => rw [List.mem_singleton.1 hl]; exact hc ch cmd rfl
  | _ => simp [linesOf] at hl

/-- A program that runs no other command. -/
theorem sendsOnly_of_built {α : Type} {k : κ} {c : ShellCmd} {υ : Prop} {ts : List Work}
    {Q : α → Prop} {m : Remote κ σ α}
    (hm : Built (Piece (.running Looks (· = c))) υ Refused k false ts Q m) (st : St Ssh κ σ) (hk : st.self = k) :
    SendsOnly c.line st (m H st).2 := by
  refine (hm.goes_only (C := (Scope.running Looks (· = c)).Makes) (Ξ := fun _ _ => True) sendsOnly_stable
    (fun call hcall st => ?_)
    (fun _ _ _ _ h => ⟨h.only, fun _ _ _ => trivial, h.value⟩) (fun _ _ => trivial) st hk).along
  refine asked_sendsOnly (fun ch cmd heq => ?_) st
  subst heq
  cases hcall with
  | call h => exact h.elim
  | channelExec h => exact congrArg ShellCmd.line h
  | move hsteps _ => cases hsteps

theorem running_tests (c : ShellCmd) (hs : Handles) : (Scope.running Looks (· = c)).Tests hs :=
  ⟨⟨fun _ _ => trivial, fun _ _ _ => trivial, fun _ _ _ => trivial⟩, fun _ _ => trivial⟩

theorem ScpFs.exec_sendsOnly (cmd : Str) (st : St Ssh ScpFs σ) :
    SendsOnly (ShellCmd.execAt st.self.wrkdir cmd).line st (ScpFs.exec cmd H st).2 :=
  sendsOnly_of_built (υ := True) (exec_built (running_tests _ _) rfl) st rfl

theorem SftpFs.exec_sendsOnly (cmd : Str) (st : St Ssh SftpFs σ) :
    SendsOnly (ShellCmd.execAt st.self.wrkdir cmd).line st (SftpFs.exec cmd H st).2 :=
  sendsOnly_of_built (υ := True) (exec_built (running_tests _ _) rfl) st rfl

end

/-! ## Where the command is run -/

/-- A line that the shell does not begin to run, for a syntax error in it, prints nothing. -/
def Unprinted {σ : Type} (Reads : Str → Prop) (H : Handler Ssh σ) : Prop :=
  ∀ {κ : Type} (session : SshSession) (line : Str) (st st' : St Ssh κ σ) (out : Str), ¬ Reads line →
    performShellCmd session line H st = (.ok out, st') → out = []

/-- What is expected of a run of `exec` that sent `lines` and ended with `o`: when the shell gets to the
command, it stands in the directory that `wrkdir` names; when that cannot be entered, it does not get
there, and the failure is reported. -/
structure ExecSafe {ω : Type} (M : Sh.Machine ω) (Reads : Str → Prop) (w : ω) (wrkdir : PathBuf) (cmd : Str)
    (lines : List Str) (o : Out RemoteError (UInt32 × Str)) : Prop where
  within : ∀ line ∈ lines, ∀ cwd, M.Comes Reads w line (cmd ++ ShellCmd.rcTail) cwd → M.enter w M.home wrkdir = some cwd
  unreached : M.enter w M.home wrkdir = none → ∀ line ∈ lines, ∀ cwd,
    ¬ M.Comes Reads w line (cmd ++ ShellCmd.rcTail) cwd
  reported : M.enter w M.home wrkdir = none → ∀ out, o ≠ .ok (0, out)

section
variable {κ σ : Type} {H : Handler Ssh σ} {st st' : St Ssh κ σ} {session : SshSession} {p : PathBuf} {cmd out : Str}
  {rc : UInt32} {Reads : Str → Prop}

/-- A command that comes back was sent, in a line that the shell began to run. -/
theorem performShellCmdAtWithRc_sent (hH : Unprinted Reads H)
    (h : (performShellCmdAtWithRc session cmd p : Remote κ σ _) H st = (.ok (rc, out), st')) :
    Reads (ShellCmd.execAt p cmd).line ∧
      ∃ new, st'.log = st.log ++ new ∧ (ShellCmd.execAt p cmd).line ∈ linesOf new := by
  obtain ⟨reply, st₁, h₁, h₂⟩ := bind_eq_ok h
  obtain ⟨-, ch, closed, hlog⟩ := performShellCmd_ok h₁
  have hst : st₁ = st' := congrArg Prod.snd h₂
  refine ⟨?_, _, hst ▸ hlog, by simp [linesOf, shellRun, ShellCmd.line, ShellCmd.withRc]⟩
  by_contra hno
  have hline : (ShellCmd.execAt p cmd).text ++ ShellCmd.rcTail = (ShellCmd.execAt p cmd).line :=
    ShellCmd.line_of_withRc rfl
  rw [hline] at h₁
  rw [hH session _ st st₁ reply hno h₁] at h₂
  cases h₂

/-- The same behind a gate, on the session and in the directory of the record. -/
theorem exec_sent {gate : Remote κ σ Unit} {session : κ → Option SshSession} {wrkdir : κ → PathBuf}
    (hH : Unprinted Reads H)
    (hg : Only Looks gate)
    (h : (do
      gate
      let s ← unwrap (session (← self))
      performShellCmdAtWithRc s cmd (wrkdir (← self)) : Remote κ σ _) H st = (.ok (rc, out), st')) :
    Reads (ShellCmd.execAt (wrkdir st.self) cmd).line ∧
      ∃ new, st'.log = st.log ++ new ∧ (ShellCmd.execAt (wrkdir st.self) cmd).line ∈ linesOf new := by
  obtain ⟨_, st₁, h₁, h⟩ := bind_eq_ok h
  obtain ⟨hself, new₁, hlog₁, -⟩ : SendsOnly [] st st₁ := by
    have hrun := hg H (SendsOnly []) sendsOnly_stable (fun c hc => asked_sendsOnly fun ch cmd heq => by
      subst heq
      exact hc.elim) st
    rwa [h₁] at hrun
  obtain ⟨s, -, h⟩ := unwrap_self_eq_ok h
  rw [bind_ok self_run, hself] at h
  obtain ⟨hreads, new, hlog, hmem⟩ := performShellCmdAtWithRc_sent hH h
  refine ⟨hreads, new₁ ++ new, by rw [hlog, hlog₁, List.append_assoc], ?_⟩
  rw [linesOf_append]
  exact List.mem_append_right _ hmem

end

section
variable {ω : Type} {M : Sh.Machine ω} {w : ω} {Reads : Str → Prop}

theorem comes_execAt {wrkdir : PathBuf} (hw : Sh.Plain wrkdir) {cmd : Str}
    (hreads : Reads (ShellCmd.execAt wrkdir cmd).line) :
    M.Comes Reads w (ShellCmd.execAt wrkdir cmd).line (cmd ++ ShellCmd.rcTail)
      ((M.enter w M.home wrkdir).getD M.home) := by
  have hline : (ShellCmd.execAt wrkdir cmd).line =
      "cd ".toList ++ Sh.quote wrkdir ++ "; ".toList ++ (cmd ++ ShellCmd.rcTail) := by
    rw [← quoted_eq, ← List.append_assoc]
    rfl
  rw [hline] at hreads ⊢
  exact M.comes_cd hw w (cmd ++ ShellCmd.rcTail) hreads

theorem execSafe_iff {wrkdir : PathBuf} (hw : Sh.Plain wrkdir) {cmd : Str} {lines : List Str}
    {o : Out RemoteError (UInt32 × Str)} (hlines : ∀ l ∈ lines, l = (ShellCmd.execAt wrkdir cmd).line)
    (hsent : ∀ out, o = .ok (0, out) → Reads (ShellCmd.execAt wrkdir cmd).line ∧ lines ≠ []) :
    ExecSafe M Reads w wrkdir cmd lines o ↔
      lines = [] ∨ ¬ Reads (ShellCmd.execAt wrkdir cmd).line ∨ M.enter w M.home wrkdir ≠ none := by
  constructor
  · intro h
    by_contra hno
    obtain ⟨hne, hreads, hnone⟩ : lines ≠ [] ∧ Reads (ShellCmd.execAt wrkdir cmd).line ∧
      M.enter w M.home wrkdir = none := by
      tauto
    obtain ⟨l, hl⟩ := List.exists_mem_of_ne_nil lines hne
    have hcomes := comes_execAt (M := M) (w := w) hw hreads
    rw [← hlines l hl] at hcomes
    exact h.unreached hnone l hl _ hcomes
  · intro h
    have hreach : ∀ l ∈ lines, ∀ cwd, M.Comes Reads w l (cmd ++ ShellCmd.rcTail) cwd →
      M.enter w M.home wrkdir = some cwd := by
      intro l hl cwd hc
      rw [hlines l hl] at hc
      rcases h with h | h | h
      · rw [h] at hl
        cases hl
      · exact absurd hc.1 h
      · obtain ⟨d, hd⟩ := Option.ne_none_iff_exists'.1 h
        rw [hc.unique M (comes_execAt hw hc.1), hd]
        rfl
    refine ⟨hreach, fun hnone l hl cwd hc => ?_, fun hnone out ho => ?_⟩
    · rw [hreach l hl cwd hc] at hnone
      cases hnone
    · obtain ⟨hreads, hne⟩ := hsent out ho
      tauto

end

/-- **`exec` runs its command in the working directory or not at all, exactly when that directory can be
entered** (or nothing is sent, or the shell does not begin to run the line), in both clients. `w` is the remote state
that the shell finds. -/
theorem exec_in_wrkdir_iff {σ ω : Type} (M : Sh.Machine ω) (w : ω) {Reads : Str → Prop} {H : Handler Ssh σ}
    (hH : Unprinted Reads H) (cmd : Str) :
    (∀ st : St Ssh ScpFs σ, Sh.Plain st.self.wrkdir → ∃ new, (ScpFs.exec cmd H st).2.log = st.log ++ new ∧
      (ExecSafe M Reads w st.self.wrkdir cmd (linesOf new) (ScpFs.exec cmd H st).1 ↔
        linesOf new = [] ∨ ¬ Reads (ShellCmd.execAt st.self.wrkdir cmd).line ∨
          M.enter w M.home st.self.wrkdir ≠ none)) ∧
    ∀ st : St Ssh SftpFs σ, Sh.Plain st.self.wrkdir → ∃ new, (SftpFs.exec cmd H st).2.log = st.log ++ new ∧
      (ExecSafe M Reads w st.self.wrkdir cmd (linesOf new) (SftpFs.exec cmd H st).1 ↔
        linesOf new = [] ∨ ¬ Reads (ShellCmd.execAt st.self.wrkdir cmd).line ∨
          M.enter w M.home st.self.wrkdir ≠ none) := by
  constructor
  · intro st hw
    obtain ⟨-, new, hlog, hlines⟩ := ScpFs.exec_sendsOnly (H := H) cmd st
    refine ⟨new, hlog, execSafe_iff hw hlines fun out ho => ?_⟩
    obtain ⟨hreads, new', hlog', hmem⟩ := exec_sent hH (only_requests (ρ := Refused) (υ := fun _ => True)
      fun k => ScpFs.checkConnection_built (looks_sees k.handles)) (Prod.ext ho rfl)
    obtain rfl : new' = new := List.append_cancel_left (hlog'.symm.trans hlog)
    exact ⟨hreads, List.ne_nil_of_mem hmem⟩
  · intro st hw
    obtain ⟨-, new, hlog, hlines⟩ := SftpFs.exec_sendsOnly (H := H) cmd st
    refine ⟨new, hlog, execSafe_iff hw hlines fun out ho => ?_⟩
    obtain ⟨hreads, new', hlog', hmem⟩ := exec_sent hH (only_requests (ρ := Refused) (υ := fun _ => True)
      fun k => SftpFs.checkConnection_built (looks_sees k.handles)) (Prod.ext ho rfl)
    obtain rfl : new' = new := List.append_cancel_left (hlog'.symm.trans hlog)
    exact ⟨hreads, List.ne_nil_of_mem hmem⟩

/-! ## A directory that is gone -/

/-- The world is a list of files. `/gone` was removed; `rm -rf x` removes `x` where the shell is. -/
def goneMachine : Sh.Machine (List Str) where
  home := "/root".toList
  enter _ _ dir := if dir = "/gone".toList then none else some dir
  utility files cwd ws := ([], 0, files.erase (cwd ++ '/' :: ws.getLastD []))

def goneServer : Handler Ssh (List Str × Str) :=
  site goneMachine (fun _ _ => .error ⟨.sftp 2, []⟩) fun files _ _ => files

def goneClient (wrkdir : PathBuf) : St Ssh ScpFs (List Str × Str) :=
  ⟨⟨some ⟨0⟩, wrkdir, SshOpts.new "h".toList⟩, (["/root/x".toList], []), []⟩

/-- It reads simple commands. -/
def Simple (line : Str) : Prop := Sh.parse line ≠ none

theorem goneServer_unprinted : Unprinted Simple goneServer := by
  intro κ session line st st' out hline h
  cases h
  have hnone : goneMachine.runLine line st.env.1 = none := by
    unfold Sh.Machine.runLine
    rw [not_not.1 hline]
    rfl
  show (((goneMachine.runLine line st.env.1).map fun s => (s.world, s.out)).getD (st.env.1, [])).2 = []
  rw [hnone]
  rfl

/-- In a directory that is there. -/
theorem exec_in_wrkdir_srv : ∃ new,
    (ScpFs.exec "rm -rf x".toList goneServer (goneClient "/srv".toList)).2.log = [] ++ new ∧
      ExecSafe goneMachine Simple ["/root/x".toList] "/srv".toList "rm -rf x".toList (linesOf new)
        (ScpFs.exec "rm -rf x".toList goneServer (goneClient "/srv".toList)).1 := by
  obtain ⟨new, hlog, hiff⟩ := (exec_in_wrkdir_iff goneMachine
    ["/root/x".toList] goneServer_unprinted "rm -rf x".toList).1
    (goneClient "/srv".toList) (show Sh.Plain "/srv".toList by decide)
  exact ⟨new, hlog, hiff.2 (Or.inr (Or.inr (by decide)))⟩

/-- The command removes a file of the login directory, and `exec` reports success. -/
theorem exec_leaves_wrkdir :
    (ScpFs.exec "rm -rf x".toList goneServer (goneClient "/gone".toList)).1 = .ok (0, []) ∧
      (ScpFs.exec "rm -rf x".toList goneServer (goneClient "/gone".toList)).2.env.1 = [] ∧
      ¬ ∃ new, (ScpFs.exec "rm -rf x".toList goneServer (goneClient "/gone".toList)).2.log = [] ++ new ∧
        ExecSafe goneMachine Simple ["/root/x".toList] "/gone".toList "rm -rf x".toList (linesOf new)
          (ScpFs.exec "rm -rf x".toList goneServer (goneClient "/gone".toList)).1 := by
  have hrun : (ScpFs.exec "rm -rf x".toList goneServer (goneClient "/gone".toList)).1 = .ok (0, []) := by
    decide +kernel
  refine ⟨hrun, by decide +kernel, ?_⟩
  rintro ⟨new, hlog, hsafe⟩
  rw [hrun] at hsafe
  have hnone : goneMachine.enter ["/root/x".toList] goneMachine.home "/gone".toList = none := by decide
  exact hsafe.reported hnone [] rfl

end RemotefsSsh
