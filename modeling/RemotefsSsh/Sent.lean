import RemotefsSsh.ExitCode
import RemotefsSsh.Scp

/-!
# The lines a run sends

`Sent cmds st st'` says that a run sent exactly the lines of `cmds`, in that order, and that each of
them came back with exit code 0.
-/

namespace RemotefsSsh

open Utf8 UnixPath Effect Prog

/-- The command lines in a log. -/
def linesOf (log : List (Sigma SshCall.Reply)) : List Str :=
  log.filterMap fun
    | ⟨.channelExec _ cmd, _⟩ => some cmd
    | _ => none

@[simp] theorem linesOf_append (a b : List (Sigma SshCall.Reply)) : linesOf (a ++ b) = linesOf a ++ linesOf b :=
  List.filterMap_append

/-- One shell command on its channel, from the opening to the end. -/
def shellRun (session : SshSession) (ch : Channel) (line reply : Str) (closed : Except SshError Unit) :
    List (Sigma SshCall.Reply) :=
  [⟨.channelSession session, .ok ch⟩, ⟨.channelExec ch line, .ok ()⟩, ⟨.channelReadToString ch, .ok reply⟩,
    ⟨.channelWaitClose ch, closed⟩]

/-- The line was run and its reply gives the exit code `v`. -/
def RanWith (v : UInt32) (line : Str) (log : List (Sigma SshCall.Reply)) : Prop :=
  ∃ session ch reply closed, shellRun session ch line reply closed <:+: log ∧ StatusLine v reply

theorem RanWith.mono {v : UInt32} {line : Str} {a b : List (Sigma SshCall.Reply)} (h : RanWith v line a)
    (hab : a <:+: b) : RanWith v line b := by
  obtain ⟨session, ch, reply, closed, hrun, hstatus⟩ := h
  exact ⟨session, ch, reply, closed, hrun.trans hab, hstatus⟩

/-- The record is as it was, the lines sent are those of `cmds`, and each had exit code 0. -/
structure Sent {κ σ : Type} (cmds : List ShellCmd) (st st' : St Ssh κ σ) : Prop where
  self : st'.self = st.self
  log : ∃ new, st'.log = st.log ++ new ∧ linesOf new = cmds.map ShellCmd.line ∧ ∀ c ∈ cmds, RanWith 0 c.line new

section
variable {κ σ : Type} {H : Handler Ssh σ} {st st₁ st' : St Ssh κ σ}

theorem Sent.refl (st : St Ssh κ σ) : Sent [] st st := ⟨rfl, [], by simp, rfl, by simp⟩

theorem Sent.trans {a b : List ShellCmd} (h : Sent a st st₁) (h' : Sent b st₁ st') : Sent (a ++ b) st st' := by
  obtain ⟨hs, n, hn, hl, hr⟩ := h
  obtain ⟨hs', n', hn', hl', hr'⟩ := h'
  refine ⟨hs'.trans hs, n ++ n', by rw [hn', hn, List.append_assoc], by rw [linesOf_append, hl, hl', List.map_append],
    fun c hc => ?_⟩
  rcases List.mem_append.1 hc with hc | hc
  · exact (hr c hc).mono (List.infix_append_of_infix_left (List.infix_refl n))
  · exact (hr' c hc).mono (List.infix_append_of_infix_right (List.infix_refl n'))

theorem performShellCmd_ok {session : SshSession} {cmd out : Str}
    (h : (performShellCmd session cmd : Remote κ σ _) H st = (.ok out, st')) :
    st'.self = st.self ∧ ∃ ch closed, st'.log = st.log ++ shellRun session ch cmd out closed := by
  unfold performShellCmd at h
  obtain ⟨r, st₁, h₁, h⟩ := bind_eq_ok h
  obtain ⟨-, -, hlog₁, hself₁⟩ := ask_ok h₁
  cases r with
  | error err => cases h
  | ok ch =>
    obtain ⟨r, st₂, h₂, h⟩ := bind_eq_ok h
    obtain ⟨-, -, hlog₂, hself₂⟩ := ask_ok h₂
    cases r with
    | error err => cases h
    | ok _ =>
      obtain ⟨r, st₃, h₃, h⟩ := bind_eq_ok h
      obtain ⟨-, -, hlog₃, hself₃⟩ := ask_ok h₃
      cases r with
      | error err => cases h
      | ok output =>
        obtain ⟨r, st₄, h₄, h⟩ := bind_eq_ok h
        obtain ⟨-, -, hlog₄, hself₄⟩ := ask_ok h₄
        cases h
        refine ⟨hself₄.trans (hself₃.trans (hself₂.trans hself₁)), ch, r, ?_⟩
        rw [hlog₄, hlog₃, hlog₂, hlog₁, shellRun]
        simp

theorem performShellCmdWithRc_sent {session : SshSession} {c : ShellCmd} (hc : c.withRc = true) {out : Str}
    (h : (performShellCmdWithRc session c.text : Remote κ σ _) H st = (.ok (0, out), st')) : Sent [c] st st' := by
  have hline : c.text ++ ShellCmd.rcTail = c.line := by rw [ShellCmd.line, if_pos hc]
  unfold performShellCmdWithRc at h
  rw [hline] at h
  obtain ⟨reply, st₁, h₁, h⟩ := bind_eq_ok h
  obtain ⟨hself, ch, closed, hlog⟩ := performShellCmd_ok h₁
  obtain ⟨hrc, rfl⟩ : rcOfOutput reply = .ok (0, out) ∧ st₁ = st' := by
    rw [ofOut_run] at h
    exact ⟨congrArg Prod.fst h, congrArg Prod.snd h⟩
  refine ⟨hself, _, hlog, rfl, fun d hd => ?_⟩
  obtain rfl := List.mem_singleton.1 hd
  exact ⟨session, ch, reply, closed, List.infix_refl _, rcOfOutput_ok_iff.1 ⟨out, hrc⟩⟩

end

namespace ScpFs

section
variable {σ : Type} {H : Handler Ssh σ} {st st' : St Ssh ScpFs σ}

/-- The gate has asked whether the session is authenticated, and it is. -/
theorem checkConnection_eq_ok (h : checkConnection H st = (.ok (), st')) :
    ∃ s, st.self.session = some s ∧ (ask (.authenticated s) : Remote ScpFs σ Bool) H st = (.ok true, st') := by
  unfold checkConnection isConnected at h
  obtain ⟨b, st₁, h₁, h⟩ := bind_eq_ok h
  rw [bind_ok self_run] at h₁
  cases b with
  | false => cases h
  | true =>
    cases h
    cases hs : st.self.session with
    | none => rw [hs] at h₁; cases h₁
    | some s =>
      rw [hs] at h₁
      exact ⟨s, rfl, h₁⟩

theorem checkConnection_sent (h : checkConnection H st = (.ok (), st')) : Sent [] st st' := by
  obtain ⟨s, -, h₁⟩ := checkConnection_eq_ok h
  obtain ⟨-, -, hlog, hself⟩ := ask_ok h₁
  exact ⟨hself, _, hlog, rfl, by simp⟩

/-- A command that succeeded exited with 0. -/
theorem runRc_eq_ok {c : ShellCmd} {bad : RemoteError} {kind : RemoteErrorType}
    (h : runRc c bad kind H st = (.ok (), st')) :
    ∃ s out, st.self.session = some s ∧ performShellCmdWithRc s c.text H st = (.ok (0, out), st') := by
  unfold runRc at h
  obtain ⟨s, hs, h⟩ := unwrap_self_eq_ok h
  obtain ⟨r, st₁, h₁, h⟩ := bind_eq_ok h
  cases r with
  | error err => cases h
  | ok p =>
    obtain ⟨rc, out⟩ := p
    have h : (if rc = 0 then pure () else Prog.throw bad : Remote ScpFs σ Unit) H st₁ = (.ok (), st') := h
    by_cases hrc : rc = 0
    · subst hrc
      cases h
      exact ⟨s, out, hs, attempt_eq_ok h₁⟩
    · rw [if_neg hrc] at h
      cases h

/-- A test that was answered. -/
theorem runTest_eq_ok {c : ShellCmd} {b : Bool} (h : runTest c H st = (.ok b, st')) :
    ∃ s rc out, st.self.session = some s ∧ performShellCmdWithRc s c.text H st = (.ok (rc, out), st') ∧
      b = decide (rc = 0) := by
  unfold runTest at h
  obtain ⟨s, hs, h⟩ := unwrap_self_eq_ok h
  obtain ⟨r, st₁, h₁, h⟩ := bind_eq_ok h
  cases r with
  | error err => cases h
  | ok p =>
    obtain ⟨rc, out⟩ := p
    cases h
    exact ⟨s, rc, out, hs, attempt_eq_ok h₁, rfl⟩

theorem runRc_sent {c : ShellCmd} (hc : c.withRc = true) {bad : RemoteError} {kind : RemoteErrorType}
    (h : runRc c bad kind H st = (.ok (), st')) : Sent [c] st st' := by
  obtain ⟨s, out, -, h⟩ := runRc_eq_ok h
  exact performShellCmdWithRc_sent hc h

theorem runTest_sent {c : ShellCmd} (hc : c.withRc = true) (h : runTest c H st = (.ok true, st')) :
    Sent [c] st st' := by
  obtain ⟨s, rc, out, -, h, hrc⟩ := runTest_eq_ok h
  obtain rfl := of_decide_eq_true hrc.symm
  exact performShellCmdWithRc_sent hc h

theorem existsPath_sent {path : PathBuf} (h : existsPath path H st = (.ok true, st')) :
    Sent [.existsPath (absolutize st.self.wrkdir path)] st st' := by
  unfold existsPath at h
  obtain ⟨_, st₁, h₁, h⟩ := bind_eq_ok h
  have hcheck := checkConnection_sent h₁
  rw [bind_ok self_run, hcheck.self] at h
  exact hcheck.trans (runTest_sent rfl h)

theorem existsOrFalse_sent {path : PathBuf} (h : existsOrFalse path H st = (.ok true, st')) :
    Sent [.existsPath (absolutize st.self.wrkdir path)] st st' := by
  unfold existsOrFalse at h
  obtain ⟨r, st₁, h₁, h⟩ := bind_eq_ok h
  cases r with
  | error err => cases h
  | ok b => cases h; exact existsPath_sent (attempt_eq_ok h₁)

theorem ifSome_sent {α : Type} {o : Option α} {f : α → Remote ScpFs σ Unit} {c : α → ShellCmd}
    (hf : ∀ a st st', f a H st = (.ok (), st') → Sent [c a] st st') (h : ifSome o f H st = (.ok (), st')) :
    Sent (o.map c).toList st st' := by
  cases o with
  | none => cases h; exact .refl st
  | some a => exact hf a st st' h

end

end ScpFs

end RemotefsSsh
