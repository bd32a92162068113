import RemotefsSsh.Bodies

/-!
# What the operations do to the client and its session

Every operation but `connect`, `disconnect` and `change_dir` leaves the client record alone, never
sends a disconnect, runs no command line outside the family of `Commands.lean`, and moves no data
unless it is a transfer (`Allowed`). `E` is a preorder on the environment that every such call moves
along, for instance that a session stays authenticated. `p` is what must be known about the record for the
handles that are unwrapped to be there.
-/

namespace RemotefsSsh

open Utf8 UnixPath Effect Prog

/-- The calls a connected client makes; `d` says whether it moves data. -/
def Allowed (d : Bool) : SshCall → Prop
  | .disconnect .. => False
  | .channelExec _ cmd => ∃ c : ShellCmd, cmd = c.line
  | .fileRead .. | .fileWrite .. | .readerRead _ | .writerWrite _ | .onRead _ | .onWritten _ => d = true
  | _ => True

/-- `E` is a preorder that every allowed call moves along. -/
structure Along {σ : Type} (H : Handler Ssh σ) (d : Bool) (E : σ → σ → Prop) : Prop where
  refl : ∀ s, E s s
  trans : ∀ {a b c}, E a b → E b c → E a c
  call : ∀ c, Allowed d c → ∀ s, E s (H.reply c s).2

theorem along_any {σ : Type} (H : Handler Ssh σ) (d : Bool) : Along H d fun _ _ => True :=
  ⟨fun _ => trivial, fun _ _ => trivial, fun _ _ _ => trivial⟩

/-! ## The calls of a scope -/

theorem allowed_of_serve {hs : Handles} {d : Bool} {c : SshCall} (h : hs.Serve c) : Allowed d c := by
  cases c <;> trivial

theorem allowed_of_connects {d : Bool} {c : SshCall} (h : Connects c) : Allowed d c := by
  cases c <;> trivial

theorem Scope.makes_allowed {X : Scope} {d : Bool} (hcalls : ∀ c, X.calls c → Allowed d c)
    (hsteps : ∀ n, X.steps = some n → d = true) {c : SshCall} (h : X.Makes c) : Allowed d c := by
  cases h with
  | call hc => exact hcalls _ hc
  | @channelExec ch cmd _ => exact ⟨cmd, rfl⟩
  | move hX hc =>
    obtain ⟨n, hn⟩ := Option.isSome_iff_exists.1 hX
    cases c with
    | readerRead _ => exact hsteps n hn
    | fileRead _ _ => exact hsteps n hn
    | fileWrite _ _ => exact hsteps n hn
    | writerWrite _ => exact hsteps n hn
    | _ => exact hc.elim
  | _ => trivial

theorem Handles.makes_allowed {hs : Handles} {d : Bool} {c : SshCall} (h : hs.scope.Makes c) : Allowed d c :=
  Scope.makes_allowed (fun _ => allowed_of_serve) (fun _ hn => by cases hn) h

theorem ScpOp.makes_allowed {L : Libs} {op : ScpOp} {hs : Handles} {d : Bool} {c : SshCall}
    (h : (op.scope L hs).Makes c) : Allowed d c :=
  Scope.makes_allowed (fun _ => allowed_of_serve) (fun _ hn => by cases hn) h

theorem SftpOp.makes_allowed {op : SftpOp} {hs : Handles} {c : SshCall} (h : (op.scope hs).Makes c) :
    Allowed true c := by
  refine Scope.makes_allowed (fun c hc => ?_) (fun _ _ => rfl) h
  rcases hc with hc | ⟨hc, -⟩
  · exact allowed_of_serve hc
  · cases c <;> first | rfl | exact hc.elim

/-! ## Asking -/

section
variable {κ σ : Type} {H : Handler Ssh σ} {d : Bool} {E : σ → σ → Prop} {p : κ → Prop} {α β : Type}

/-- From a record in `p`, a program only asks, and no `unwrap` in it fails. -/
abbrev Asks {ε : Type} (H : Handler Ssh σ) (d : Bool) (E : σ → σ → Prop) (p : κ → Prop) (m : Prog Ssh κ σ ε α) : Prop :=
  Keeps H (fun st => p st.self) (Quiet (Allowed d) E) m

theorem Along.stable (hA : Along H d E) : Stable (Quiet (Allowed d) E : St Ssh κ σ → St Ssh κ σ → Prop) :=
  quiet_stable hA.refl hA.trans

namespace Asks

section
variable {b : Bool} {υ : κ → Prop} {ρ : RemoteError → Prop} {ts : κ → List Work} {Q : κ → α → Prop} {m : Remote κ σ α}

/-- What is put together of pieces that only ask. -/
theorem of_pieces (hA : Along H d E) {P : κ → Pieces Ssh κ σ RemoteError Work}
    (hm : ∀ k, p k → Built (P k) (υ k) ρ k b (ts k) (Q k) m) (hup : ∀ k, p k → υ k)
    (hP : ∀ k α ts Q m, P k α ts Q m → Only (Allowed d) m ∧ Breaks H (fun b _ => b ≠ .panic .unwrapNone) m ∧
      ∀ st a, (m H st).1 = .ok a → Q a) : Asks H d E p m := by
  intro st hst
  obtain ⟨halong, -, -, hbreaks⟩ := (hm st.self hst).goes_only hA.stable
    (fun c hc st => quiet_call (ε := RemoteError) hc (hA.call c hc) st) (hP _)
    (fun hno => absurd (hup st.self hst) hno) st rfl
  exact ⟨halong, fun h => hbreaks (.panic .unwrapNone) (by rw [h]; rfl) rfl⟩

theorem of_built (hA : Along H d E) {X : κ → Scope} (hm : ∀ k, p k → Built (Piece (X k)) (υ k) ρ k b (ts k) (Q k) m)
    (hup : ∀ k, p k → υ k) (hX : ∀ k c, (X k).Makes c → Allowed d c) : Asks H d E p m :=
  of_pieces hA hm hup fun k _ _ _ _ h => ⟨h.only.mono (hX k), h.unwraps H, h.value⟩

/-- What a scope of handles is enough for. -/
theorem of_looks (hA : Along H d E) {hs : κ → Handles}
    (hm : ∀ k, p k → Built (Piece (hs k).scope) True ρ k b (ts k) (Q k) m) :
    Asks H d E p m :=
  of_built (υ := fun _ => True) hA hm (fun _ _ => trivial) fun _ _ => Handles.makes_allowed

theorem of_calls (hA : Along H d E) {C : SshCall → Prop}
    (hm : ∀ k, p k → Built (Calls work? C ρ) True ρ k b (ts k) (Q k) m)
    (hC : ∀ c, C c → Allowed d c) : Asks H d E p m :=
  of_pieces (υ := fun _ => True) hA hm (fun _ _ => trivial) fun _ _ _ _ _ h =>
    ⟨h.only.1.mono hC, h.unwraps H, h.only.2 H⟩

end

theorem throw (hA : Along H d E) (e : RemoteError) : Asks H d E p (Prog.throw e : Remote κ σ α) :=
  Keeps.throw hA.stable e

theorem ask (hA : Along H d E) {c : SshCall} (hc : Allowed d c) : Asks H d E p (RemotefsSsh.ask c : Remote κ σ _) :=
  Keeps.call fun st _ => quiet_call hc (hA.call c hc) st

theorem attempt {m : Remote κ σ α} (hm : Asks H d E p m) :
    Asks H d E p (Prog.attempt m : Remote κ σ (Except RemoteError α)) := Keeps.attempt hm

/-- What is asked of any record leaves the record alone. -/
theorem self_eq {m : Remote κ σ α} (hm : Asks H d E (fun _ => True) m) (st : St Ssh κ σ) : (m H st).2.self = st.self :=
  (hm st trivial).1.self

end Asks

variable (hA : Along H d E)
include hA

theorem connect_asks (opts : SshOpts) : Asks H d E p (RemotefsSsh.connect opts : Remote κ σ _) :=
  .of_calls (ρ := Refused) hA (fun _ _ => connect_built opts) fun _ => allowed_of_connects

/-- Any command on any session. -/
def shells : Scope := .running (fun _ => False) fun _ => True

theorem performShellCmd_asks (session : SshSession) (c : ShellCmd) :
    Asks H d E p (performShellCmd session c.line : Remote κ σ _) := by
  have hbuilt : ∀ k, Built (Calls work? shells.Makes Refused) True Refused k true c.work (fun _ => True)
      (performShellCmd session c.line : Remote κ σ _) := fun k => performShellCmd_built (fun _ h => h) trivial trivial
  exact .of_calls hA (fun k _ => hbuilt k) fun _ => Scope.makes_allowed (fun _ => False.elim) fun _ hn => by cases hn

/-- A command line that is run as it stands. -/
theorem performShellCmd_text_asks (session : SshSession) {c : ShellCmd} (hc : c.withRc = false) :
    Asks H d E p (performShellCmd session c.text : Remote κ σ _) := by
  rw [ShellCmd.line_of_bare hc]
  exact performShellCmd_asks hA session c

end

/-! ## Runs -/

section
variable {κ σ α : Type} {H : Handler Ssh σ} {X : Scope} {υ : Prop} {ρ : RemoteError → Prop} {b : Bool} {ts : List Work}
  {Q : α → Prop} {m : Remote κ σ α} {st st' : St Ssh κ σ}

theorem goes_of_built (hm : Built (Piece X) υ ρ st.self b ts Q m) :
    Goes (fun _ _ => True) (fun _ _ => True) st.self Q st (m H st) := by
  refine hm.goes_only (C := X.Makes) stable_any (fun _ _ _ => trivial) (fun _ _ _ _ hp => ?_)
    (fun _ _ => trivial) st rfl
  exact ⟨hp.only, fun _ _ _ => trivial, hp.value⟩

theorem self_of_built (hm : Built (Piece X) υ ρ st.self b ts Q m) : (m H st).2.self = st.self :=
  (goes_of_built hm).self

/-- What is known of the value that a run returns. -/
theorem value_of_built {a : α} (hm : Built (Piece X) υ ρ st.self b ts Q m) (h : m H st = (.ok a, st')) :
    Q a ∧ st'.self = st.self := by
  have hgoes := goes_of_built (H := H) hm
  rw [h] at hgoes
  exact ⟨hgoes.value a rfl, hgoes.self⟩

/-- What moves no data comes to an end. -/
theorem halts_of_built {X : κ → Scope} {υ : κ → Prop} {ts : κ → List Work} {Q : κ → α → Prop}
    (hm : ∀ k, Built (Piece (X k)) (υ k) ρ k b (ts k) (Q k) m) (hX : ∀ k, (X k).steps = none) : Halts m := by
  intro H st hspin
  refine ((hm st.self).goes_only (C := (X st.self).Makes) (Ξ := fun b _ => b ≠ .spin) stable_any (fun _ _ _ => trivial)
    (fun _ _ _ _ hp => ⟨hp.only, hp.halts (hX _) H, hp.value⟩) (fun _ _ => nofun) st rfl).breaks .spin ?_ rfl
  rw [hspin]
  rfl

end

section
variable {σ : Type} {H : Handler Ssh σ}

theorem ScpFs.checkConnection_self (st : St Ssh ScpFs σ) : (ScpFs.checkConnection H st).2.self = st.self :=
  self_of_built (ScpFs.checkConnection_built (ρ := Refused) (υ := True) (Handles.covers _).sees)

theorem ScpFs.existsOrFalse_self (path : PathBuf) (st : St Ssh ScpFs σ) :
    (ScpFs.existsOrFalse path H st).2.self = st.self :=
  self_of_built (ScpFs.existsOrFalse_built (ρ := Refused) (υ := True) (b := true) (Handles.covers _).tests trivial)

theorem SftpFs.checkConnection_self (st : St Ssh SftpFs σ) : (SftpFs.checkConnection H st).2.self = st.self :=
  self_of_built (SftpFs.checkConnection_built (ρ := Refused) (υ := True) (Handles.covers _).sees)

theorem SftpFs.existsPath_self (path : PathBuf) (st : St Ssh SftpFs σ) :
    (SftpFs.existsPath path H st).2.self = st.self :=
  self_of_built (SftpFs.existsPath_built (ρ := Refused) (υ := True) (Handles.covers _).sees path)

end

end RemotefsSsh
