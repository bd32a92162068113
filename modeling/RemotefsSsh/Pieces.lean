import RemotefsSsh.Lib.Plan
import RemotefsSsh.Operations

/-!
# What the operations are put together of (ssh/commons.rs, ssh/sftp.rs)

The pieces of an operation are requests on the handles of its record, shell commands, the formatting of a time, and the
transfer of a file. A `Scope` says which of them it may use, `Piece` what each of them does, and `Piece.built` what a
piece is put together of in its turn: calls.
-/

namespace RemotefsSsh

open Utf8 UnixPath Effect Prog

/-! ## Scopes -/

/-- The handles in a client record. -/
structure Handles where
  session : Option SshSession
  sftp : Option SshSftp

def ScpFs.handles (fs : ScpFs) : Handles := ⟨fs.session, none⟩

def SftpFs.handles (fs : SftpFs) : Handles := ⟨fs.session, fs.sftp⟩

/-- The requests that one of the handles serves, and the clock. -/
def Handles.Serve (hs : Handles) : SshCall → Prop
  | .authenticated s | .setBlocking s _ | .scpSend s .. | .scpRecv s _ => hs.session = some s
  | .readdir f _ | .stat f _ | .setstat f .. | .readlink f _ | .unlink f _ | .rmdir f _ | .mkdir f .. | .symlink f ..
  | .renameOverwrite f .. | .openMode f .. | .openRead f _ => hs.sftp = some f
  | .utcYear => True
  | _ => False

/-- A piece of a transfer. -/
def Moves : SshCall → Prop
  | .readerRead _ | .fileRead .. | .fileWrite .. | .writerWrite _ => True
  | _ => False

/-- What an operation may make use of. -/
structure Scope where
  calls : SshCall → Prop
  session : SshSession → Prop
  cmds : ShellCmd → Prop
  /-- A time that it is given cannot be formatted. -/
  late : Prop
  /-- The turns that its transfer is given. -/
  steps : Option Nat

/-- Requests in `C`, ... -/
def Scope.requests (C : SshCall → Prop) : Scope where
  calls := C
  session _ := False
  cmds _ := False
  late := False
  steps := none

/-- ... and on any session commands in `cmds`. -/
def Scope.running (C : SshCall → Prop) (cmds : ShellCmd → Prop) : Scope :=
  { Scope.requests C with session := fun _ => True, cmds := cmds }

/-- All that the handles are for, but for transfers. -/
def Handles.scope (hs : Handles) : Scope where
  calls := hs.Serve
  session s := hs.session = some s
  cmds _ := True
  late := False
  steps := none

/-- The calls that are made in a scope. -/
inductive Scope.Makes (X : Scope) : SshCall → Prop
  | call {c : SshCall} : X.calls c → Makes X c
  | channelSession {s : SshSession} : X.session s → Makes X (.channelSession s)
  | channelExec {ch : Channel} {c : ShellCmd} : X.cmds c → Makes X (.channelExec ch c.line)
  | channelReadToString {s : SshSession} {ch : Channel} : X.session s → Makes X (.channelReadToString ch)
  | channelWaitClose {s : SshSession} {ch : Channel} : X.session s → Makes X (.channelWaitClose ch)
  | move {c : SshCall} : X.steps.isSome = true → Moves c → Makes X c

theorem Scope.requests_makes {C : SshCall → Prop} {c : SshCall} (h : (Scope.requests C).Makes c) : C c := by
  cases h with
  | call hc => exact hc
  | move hsteps _ => cases hsteps
  | _ => exact False.elim ‹_›

/-- There is enough to look around with requests, ... -/
structure Scope.Sees (X : Scope) (hs : Handles) : Prop where
  authenticated : ∀ s, hs.session = some s → X.calls (.authenticated s)
  stat : ∀ f p, hs.sftp = some f → X.calls (.stat f p)
  readlink : ∀ f p, hs.sftp = some f → X.calls (.readlink f p)

/-- ... with commands on the session, ... -/
structure Scope.Tests (X : Scope) (hs : Handles) : Prop extends X.Sees hs where
  session : ∀ s, hs.session = some s → X.session s

/-- ... and for all that the handles are for. -/
structure Scope.Covers (X : Scope) (hs : Handles) : Prop where
  calls : ∀ c, hs.Serve c → X.calls c
  session : ∀ s, hs.session = some s → X.session s
  cmds : ∀ c, X.cmds c

theorem Scope.Covers.tests {X : Scope} {hs : Handles} (hX : X.Covers hs) : X.Tests hs :=
  ⟨⟨fun _ hs => hX.calls _ hs, fun _ _ hf => hX.calls _ hf, fun _ _ hf => hX.calls _ hf⟩, hX.session⟩

theorem Scope.Covers.sees {X : Scope} {hs : Handles} (hX : X.Covers hs) : X.Sees hs := hX.tests.toSees

theorem Handles.covers (hs : Handles) : hs.scope.Covers hs := ⟨fun _ h => h, fun _ h => h, fun _ => trivial⟩

/-! ## Pieces -/

/-- The work of a command. -/
def ShellCmd.work (c : ShellCmd) : List Work := if c.looks then [] else [ran c]

theorem work_line (ch : Channel) (c : ShellCmd) : (work? (.channelExec ch c.line)).toList = c.work := by
  have hwork : work? (.channelExec ch c.line) = if c.looks then none else some (ran c) := by rw [← looks_line]; rfl
  rw [hwork, ShellCmd.work]
  split <;> rfl

inductive Piece {κ σ : Type} (X : Scope) : Pieces Ssh κ σ RemoteError Work
  | call {c : SshCall} : X.calls c → Piece X c.Reply (work? c).toList (fun _ => True) (ask c)
  | shell {s : SshSession} {c : ShellCmd} : X.session s → X.cmds c → c.withRc = false →
      Piece X Str c.work (fun _ => True) (performShellCmd s c.text)
  | shellWithRc {s : SshSession} {c : ShellCmd} : X.session s → X.cmds c → c.withRc = true →
      Piece X (UInt32 × Str) c.work (fun _ => True) (performShellCmdWithRc s c.text)
  | fmtTime {L : Libs} {t : SystemTime} {fmt : Str} : (L.chrono.formatUtc t fmt = none → X.late) →
      Piece X Str [] (fun text => L.chrono.formatUtc t fmt = some text) (ofOut (fmtTimeUtc L.chrono t fmt))
  | transfer {w : PointerWidth} {src : Source} {dst : Sink} {size : UInt64} {fuel : Nat} : X.steps = some fuel →
      Piece X Nat [] (fun _ => True) (transfer w src dst size fuel)

section
variable {κ σ : Type} {C : SshCall → Prop} {ρ : RemoteError → Prop} {υ : Prop} {k : κ} {b : Bool}

/-! ### Commands -/

theorem not_refused {e : RemoteError} (h : e.kind.refuses = false) : ¬ Refused e := by
  intro hr
  unfold Refused at hr
  rw [h] at hr
  cases hr

theorem call_built {c : SshCall} (hc : C c) :
    Built (Calls work? C ρ) υ ρ k b (work? c).toList (fun _ => True) (ask c : Remote κ σ _) :=
  .piece (.call hc)

theorem idle_built {c : SshCall} (hc : C c) (hno : work? c = none) :
    Built (Calls work? C ρ) υ ρ k b [] (fun _ => True) (ask c : Remote κ σ _) := by
  have hcall : Built (Calls work? C ρ) υ ρ k b (work? c).toList (fun _ => True) (ask c : Remote κ σ _) := call_built hc
  rwa [hno] at hcall

variable (hρ : ∀ e, ρ e → Refused e)
include hρ

theorem performShellCmd_built {X : Scope} {s : SshSession} {c : ShellCmd} (hs : X.session s) (hc : X.cmds c) :
    Built (Calls work? X.Makes ρ) υ ρ k b c.work (fun _ => True) (performShellCmd s c.line : Remote κ σ _) := by
  have hthrow : ∀ {ts : List Work} {msg : Str} {b : Bool}, Built (Calls work? X.Makes ρ) υ ρ k b ts (fun _ => True)
      (throw (.newEx .protocolError msg) : Remote κ σ Str) := .throw fun _ h => not_refused rfl (hρ _ h)
  refine .look (idle_built (c := .channelSession s) (.channelSession hs) rfl) fun r _ => ?_
  cases r with
  | error err => exact hthrow
  | ok ch =>
    rw [← work_line ch]
    refine .work_look (call_built (c := .channelExec ch c.line) (.channelExec hc)) fun r _ => ?_
    cases r with
    | error err => exact hthrow
    | ok _ =>
      refine .look (idle_built (c := .channelReadToString ch) (.channelReadToString hs) rfl) fun r _ => ?_
      cases r with
      | error err => exact hthrow
      | ok output =>
        exact .look (idle_built (c := .channelWaitClose ch) (.channelWaitClose hs) rfl) fun _ _ => .pure trivial

omit hρ in
theorem rcOfOutput_err {output : Str} {e : RemoteError} (h : rcOfOutput output = .err e) : e.kind = .protocolError := by
  unfold rcOfOutput at h
  split at h
  · cases hout : sliceTo output (_ + 1) <;> rw [hout] at h
    · cases h
    · cases hrc : sliceFrom output _ <;> rw [hrc] at h
      · cases h
      · simp only [bind, Out.bind, Out.unwrapSlice] at h
        split at h <;> cases h
        rfl
  · split at h <;> cases h
    rfl

omit hρ in
theorem performShellCmd_breaks {H : Handler Ssh σ} (session : SshSession) (cmd : Str) :
    Breaks H (fun _ _ => False) (performShellCmd session cmd : Remote κ σ _) := by
  refine .bind (.call _) fun r => ?_
  cases r with
  | error err => exact .throw _
  | ok channel =>
    refine .bind (.call _) fun r => ?_
    cases r with
    | error err => exact .throw _
    | ok _ =>
      refine .bind (.call _) fun r => ?_
      cases r with
      | error err => exact .throw _
      | ok output => exact .bind (.call _) fun _ => .pure _

omit hρ in
theorem rcOfOutput_strSlice {output : Str} {b : Break} (h : (rcOfOutput output).break? = some b) :
    b = .panic .strSlice := by
  unfold rcOfOutput at h
  split at h
  · rename_i index _
    cases hto : sliceTo output (index + 1) with
    | none => rw [hto] at h; cases h; rfl
    | some actualOutput =>
      cases hfrom : sliceFrom output index with
      | none => rw [hto, hfrom] at h; cases h; rfl
      | some rcText =>
        rw [hto, hfrom, Out.unwrapSlice_some, Out.unwrapSlice_some, Out.ok_bind, Out.ok_bind] at h
        split at h <;> cases h
  · split at h <;> cases h

theorem performShellCmdWithRc_built {X : Scope} {s : SshSession} {c : ShellCmd} (hs : X.session s) (hc : X.cmds c)
    (hrc : c.withRc = true) :
    Built (Calls work? X.Makes ρ) υ ρ k b c.work (fun _ => True) (performShellCmdWithRc s c.text : Remote κ σ _) := by
  unfold performShellCmdWithRc
  rw [ShellCmd.line_of_withRc hrc]
  refine .work_look (performShellCmd_built hρ hs hc) fun output _ =>
    .imp (.piece (.ofOut (fun e he h => ?_) fun hno => ?_)) fun _ _ => trivial
  · exact not_refused (by rw [rcOfOutput_err he]; rfl) (hρ e h)
  · cases rcOfOutput_strSlice (b := .panic .unwrapNone) (by rw [hno]; rfl)

/-! ### Transfers -/

theorem writeLoop_built (hC : ∀ c, Moves c → C c) (dst : Sink) (buffer : List UInt8) (fuel delta : Nat) :
    Built (Calls work? C ρ) υ ρ k b [] (fun _ => True) (writeLoop dst buffer fuel delta : Remote κ σ _) := by
  induction fuel generalizing delta with
  | zero => exact .piece .spin
  | succ fuel ih =>
    refine .ite (fun _ => .look (S := fun _ => True) ?_ fun r _ => ?_) fun _ => .pure trivial
    · cases dst with
      | remote file => exact idle_built (c := .fileWrite file _) (hC _ trivial) rfl
      | writer => exact idle_built (c := .writerWrite _) (hC _ trivial) rfl
    · cases r with
      | error e => exact .throw fun _ h => not_refused rfl (hρ _ h)
      | ok n => exact ih _

theorem transferLoop_built (hC : ∀ c, Moves c → C c) (w : PointerWidth) (src : Source) (dst : Sink)
    (transferSize inner fuel bytes : Nat) : Built (Calls work? C ρ) υ ρ k b [] (fun _ => True)
      (transferLoop w src dst transferSize inner fuel bytes : Remote κ σ _) := by
  induction fuel generalizing bytes with
  | zero => exact .piece .spin
  | succ fuel ih =>
    refine .ite (fun _ => .look (S := fun _ => True) ?_ fun r _ => ?_) fun _ => .pure trivial
    · cases src with
      | reader => exact idle_built (c := .readerRead bufferLen) (hC _ trivial) rfl
      | remote file => exact idle_built (c := .fileRead file bufferLen) (hC _ trivial) rfl
    · cases r with
      | error e => exact .throw fun _ h => not_refused rfl (hρ _ h)
      | ok buffer => exact .look (writeLoop_built hρ hC dst _ _ _) fun _ _ => ih _

/-! ### All pieces -/

omit hρ in
theorem fmtTimeUtc_ok {ε : Type} {X : Chrono} {t : SystemTime} {fmt text : Str}
    (h : (fmtTimeUtc X t fmt : Out ε Str) = .ok text) :
    X.formatUtc t fmt = some text := by
  unfold fmtTimeUtc at h
  split at h <;> cases h
  assumption

variable {X : Scope} {α : Type} {ts : List Work} {Q : α → Prop} {m : Remote κ σ α}

theorem Piece.built (h : Piece X α ts Q m) : Built (Calls work? X.Makes ρ) υ ρ k b ts Q m := by
  cases h with
  | call hc => exact .piece (.call (.call hc))
  | @shell s c hs hc hrc =>
    rw [ShellCmd.line_of_bare hrc]
    exact performShellCmd_built hρ hs hc
  | shellWithRc hs hc hrc => exact performShellCmdWithRc_built hρ hs hc hrc
  | fmtTime hlate =>
    refine .imp (.piece (.ofOut (fun e he => ?_) ?_)) fun text => fmtTimeUtc_ok
    · unfold fmtTimeUtc at he
      split at he <;> cases he
    · unfold fmtTimeUtc
      split <;> simp
  | transfer hsteps =>
    exact transferLoop_built hρ (fun c hc => .move (by rw [hsteps]; rfl) hc) _ _ _ _ _ _ _

theorem Piece.works {H : Handler Ssh σ} (h : Piece X α ts Q m) (b : Bool) : Works work? H k ρ b ts Q m :=
  (h.built (υ := True) hρ).works fun _ _ _ _ hp => hp.works

omit hρ in
theorem Piece.only (h : Piece X α ts Q m) : Only X.Makes m :=
  Built.only (υ := fun _ => True) (b := true) (fun _ => h.built (ρ := Refused) fun _ h => h) fun _ _ _ _ _ hp => hp.only

omit hρ in
theorem Piece.value {H : Handler Ssh σ} (h : Piece X α ts Q m) (st : St Ssh κ σ) (a : α) (ha : (m H st).1 = .ok a) :
    Q a := by
  cases h with
  | fmtTime _ => exact fmtTimeUtc_ok ha
  | _ => trivial

omit hρ in
/-- A program of requests. -/
theorem only_requests {υ : κ → Prop} {Q : κ → α → Prop}
    (hm : ∀ k, Built (Piece (.requests C)) (υ k) ρ k b [] (Q k) m) : Only C m :=
  Built.only hm fun _ _ _ _ _ h => ⟨h.only.mono fun _ => Scope.requests_makes, fun _ => h.value⟩

omit hρ in
/-- No `unwrap` fails in a piece. -/
theorem Piece.unwraps (h : Piece X α ts Q m) (H : Handler Ssh σ) : Breaks H (fun b _ => b ≠ .panic .unwrapNone) m := by
  intro st
  have hbuilt : Built (Calls work? X.Makes Refused) True Refused st.self true ts Q m := h.built fun _ h => h
  refine (hbuilt.goes_only (C := X.Makes) (Ξ := fun b _ => b ≠ .panic .unwrapNone) stable_any (fun _ _ _ => trivial)
    (fun _ _ _ _ hp => ?_) (fun hno => absurd trivial hno) st rfl).breaks
  exact ⟨hp.only.1, hp.unwraps H, hp.only.2 H⟩

omit hρ in
/-- Only a transfer can take too many steps. -/
theorem Piece.halts (h : Piece X α ts Q m) (hX : X.steps = none) (H : Handler Ssh σ) :
    Breaks H (fun b _ => b ≠ .spin) m := by
  cases h with
  | call _ => exact .call _
  | shell _ _ _ => exact fun st b hb => (performShellCmd_breaks _ _ st b hb).elim
  | shellWithRc _ _ _ =>
    refine .bind (fun st b hb => (performShellCmd_breaks _ _ st b hb).elim) fun output => .ofOut fun b hb _ => ?_
    rw [rcOfOutput_strSlice hb]
    nofun
  | fmtTime _ =>
    refine .ofOut fun b hb _ => ?_
    unfold fmtTimeUtc at hb
    split at hb <;> cases hb
    nofun
  | transfer hsteps =>
    rw [hX] at hsteps
    cases hsteps

end

end RemotefsSsh
