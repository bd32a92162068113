import RemotefsSsh.Client
import RemotefsSsh.Connecting
import RemotefsSsh.Replies
import RemotefsSsh.Sent

/-!
# Operations that do not come back (ssh/scp.rs, ssh/sftp.rs)

Whatever the server answers, an operation of a reachable client returns a value or an error, with three exceptions: the
reply to a command it ran is cut between the bytes of a character, a time of a `setstat` over SCP cannot be formatted,
or a transfer does not come to its end in the steps it is given (`operations_break_for`).
-/

namespace RemotefsSsh

open Utf8 UnixPath Effect Prog

/-- At least `n` of them. -/
def Transferred (n : Nat) (es : List (Sigma SshCall.Reply)) : Prop := n ≤ es.length ∧ ∀ e ∈ es, Moves e.1

/-- Why an operation breaks off; `time` is for a time that cannot be formatted, `steps` for the length of a transfer. -/
inductive Reason (time : Prop) (steps : Option Nat) {κ σ : Type} : Break → St Ssh κ σ → Prop
  /-- The last thing it did was to run a command, and its reply is cut in the middle of a character. -/
  | reply {st : St Ssh κ σ} {log : List (Sigma SshCall.Reply)} {session : SshSession} {ch : Channel} {cmd text : Str}
      {closed : Except SshError Unit} : st.log = log ++ shellRun session ch cmd text closed → ¬ Aligned text →
      Reason time steps (.panic .strSlice) st
  | time {st : St Ssh κ σ} : time → Reason time steps (.panic .outOfRange) st
  /-- The last things it did were to read and to write, as often as it could. -/
  | endless {st : St Ssh κ σ} {log es : List (Sigma SshCall.Reply)} {n : Nat} : steps = some n → st.log = log ++ es →
      Transferred n es → Reason time steps .spin st

/-- A handle that is not there is a reason that a reachable client does not have. -/
def Blames {κ σ α : Type} (time : Prop) (steps : Option Nat) (H : Handler Ssh σ) (m : Remote κ σ α) : Prop :=
  Breaks H (fun b st => b = .panic .unwrapNone ∨ Reason time steps b st) m

section
variable {κ σ α β : Type} {H : Handler Ssh σ} {time : Prop} {steps : Option Nat}

theorem unwrap_blames {o : Option α} {f : α → Remote κ σ β} (hf : ∀ a, Blames time steps H (f a)) :
    Blames time steps H (unwrap o >>= f) := by
  refine .bind (.ofOut fun b hb st => Or.inl ?_) hf
  cases o <;> cases hb
  rfl

theorem performShellCmd_blames (session : SshSession) (cmd : Str) :
    Blames time steps H (performShellCmd session cmd : Remote κ σ _) :=
  fun st b hb => (performShellCmd_breaks session cmd st b hb).elim

theorem rcOfOutput_break {output : Str} {b : Break} (h : (rcOfOutput output).break? = some b) :
    b = .panic .strSlice ∧ ¬ Aligned output := by
  have hno : ¬ Aligned output := fun ha => by
    rcases rcOfOutput_returns_iff.2 ha with ⟨a, hr⟩ | ⟨e, hr⟩
    · rw [hr] at h
      cases h
    · rw [hr] at h
      cases h
  exact ⟨rcOfOutput_strSlice h, hno⟩

theorem performShellCmdWithRc_blames (session : SshSession) (cmd : Str) :
    Blames time steps H (performShellCmdWithRc session cmd : Remote κ σ _) := by
  intro st b hb
  have hblames : Blames time steps H (performShellCmd session (cmd ++ ShellCmd.rcTail) : Remote κ σ _) :=
    performShellCmd_blames _ _
  have hrun := hblames st
  unfold performShellCmdWithRc at hb ⊢
  cases hr : (performShellCmd session (cmd ++ ShellCmd.rcTail) : Remote κ σ _) H st with
  | mk o st' =>
    rw [hr] at hrun
    rw [bind_run, hr] at hb ⊢
    cases o with
    | ok output =>
      obtain ⟨hb, hno⟩ := rcOfOutput_break hb
      obtain ⟨-, ch, closed, hlog⟩ := performShellCmd_ok hr
      exact Or.inr (hb ▸ .reply hlog hno)
    | err e => cases hb
    | panic p => exact hrun b hb
    | spin => exact hrun b hb

theorem connect_blames (opts : SshOpts) : Blames time steps H (RemotefsSsh.connect opts : Remote κ σ _) := by
  intro st b hb
  cases hr : (RemotefsSsh.connect opts : Remote κ σ _) H st with
  | mk o st' =>
    rw [hr] at hb
    cases o with
    | ok session => cases hb
    | err e => cases hb
    | _ =>
      obtain ⟨err, he, -⟩ := (@connect_tells κ _ H st.log opts).stops (since_self rfl) hr (by simp)
      cases he

end

/-! ## The transfer loop -/

section
variable {κ σ : Type} {H : Handler Ssh σ}

/-- One more piece. -/
theorem Transferred.step {n : Nat} {es : List (Sigma SshCall.Reply)} (h : Transferred n es) {e : Sigma SshCall.Reply}
    (he : Moves e.1) : Transferred (n + 1) (es ++ [e]) := by
  refine ⟨by simpa using h.1, fun e' he' => ?_⟩
  rcases List.mem_append.1 he' with he' | he'
  · exact h.2 e' he'
  · rw [List.mem_singleton.1 he']
    exact he

theorem Transferred.mono {n k : Nat} {es : List (Sigma SshCall.Reply)} (h : Transferred n es) (hk : k ≤ n) :
    Transferred k es :=
  ⟨hk.trans h.1, h.2⟩

/-- Where the calls come to an end, unless in an error. -/
def Ran (log₀ : List (Sigma SshCall.Reply)) (n : Nat) : Option RemoteError → St Ssh κ σ → Prop
  | some _ => fun _ => True
  | none => Since log₀ (Transferred n)

variable {log₀ : List (Sigma SshCall.Reply)}

theorem ran_call {c : SshCall} (hc : Moves c) (k : Nat) {E : Option RemoteError → St Ssh κ σ → Prop} :
    Triple H (Since log₀ (Transferred k)) (ask c : Remote κ σ _) (fun _ => Since log₀ (Transferred (k + 1))) E :=
  .call_since fun _ _ h => h.step hc

/-- Every turn writes once. -/
theorem writeLoop_ran (dst : Sink) (buffer : List UInt8) (fuel delta k : Nat) :
    Triple H (Since log₀ (Transferred k)) (writeLoop dst buffer fuel delta : Remote κ σ _)
      (fun _ => Since log₀ (Transferred k)) (Ran log₀ (k + fuel)) := by
  induction fuel generalizing delta k with
  | zero => exact .spin fun st h => h
  | succ fuel ih =>
    refine .ite (fun _ => .bind (Q := fun _ => Since log₀ (Transferred (k + 1))) ?_ fun r =>
      ?_) fun _ => .pure fun st h => h
    · cases dst with
      | remote file => exact ran_call (c := .fileWrite file _) trivial k
      | writer => exact ran_call (c := .writerWrite _) trivial k
    · cases r with
      | error e => exact .throw fun _ _ => trivial
      | ok n =>
        refine (ih (delta + n) (k + 1)).conseq (fun _ h => h) (fun _ _ h => h.imp fun _ h => h.mono (Nat.le_succ k))
          fun e st h => ?_
        rwa [Nat.add_right_comm k 1 fuel] at h

/-- Every turn reads once, and the buffer is written in as many turns at least as there are given for it. -/
theorem transferLoop_ran (w : PointerWidth) (src : Source) (dst : Sink) (transferSize inner fuel bytes k : Nat) :
    Triple H (Since log₀ (Transferred k)) (transferLoop w src dst transferSize inner fuel bytes : Remote κ σ _)
      (fun _ => Since log₀ (Transferred k)) (Ran log₀ (k + min inner fuel)) := by
  induction fuel generalizing bytes k with
  | zero => exact .spin fun st h => h.imp fun _ h => h.mono (by omega)
  | succ fuel ih =>
    have hweak : ∀ {n : Nat} {e : Option RemoteError} {st : St Ssh κ σ}, k + min inner (fuel + 1) ≤ n →
        Ran log₀ n e st → Ran log₀ (k + min inner (fuel + 1)) e st := by
      intro n e st hn h
      cases e with
      | some e => trivial
      | none => exact h.imp fun _ h => h.mono hn
    refine .ite (fun _ => .bind (Q := fun _ => Since log₀ (Transferred (k + 1))) ?_ fun r =>
      ?_) fun _ => .pure fun st h => h
    · cases src with
      | reader => exact ran_call (c := .readerRead _) trivial k
      | remote file => exact ran_call (c := .fileRead file _) trivial k
    · cases r with
      | error e => exact .throw fun _ _ => trivial
      | ok buffer =>
        refine .bind ((writeLoop_ran dst buffer.val inner 0 (k + 1)).conseq (fun _ h => h) (fun _ _ h => h)
          fun e st => ?_) fun _ => ?_
        · exact hweak (by omega)
        · refine (ih _ (k + 1)).conseq (fun _ h => h)
            (fun _ _ h => h.imp fun _ h => h.mono (Nat.le_succ k)) fun e st => ?_
          exact hweak (by omega)

theorem writeLoop_spins (dst : Sink) (buffer : List UInt8) (fuel delta : Nat) :
    Breaks H (fun b _ => b = .spin) (writeLoop dst buffer fuel delta : Remote κ σ _) := by
  induction fuel generalizing delta with
  | zero => exact .spin fun _ => rfl
  | succ fuel ih =>
    refine .ite (.bind ?_ fun r => ?_) (.pure ())
    · cases dst with
      | remote file => exact .call _
      | writer => exact .call _
    · cases r with
      | error e => exact .throw _
      | ok n => exact ih _

theorem transferLoop_spins (w : PointerWidth) (src : Source) (dst : Sink) (transferSize inner fuel bytes : Nat) :
    Breaks H (fun b _ => b = .spin) (transferLoop w src dst transferSize inner fuel bytes : Remote κ σ _) := by
  induction fuel generalizing bytes with
  | zero => exact .spin fun _ => rfl
  | succ fuel ih =>
    refine .ite (.bind ?_ fun r => ?_) (.pure _)
    · cases src with
      | reader => exact .call _
      | remote file => exact .call _
    · cases r with
      | error e => exact .throw _
      | ok buffer => exact .bind (writeLoop_spins _ _ _ _) fun _ => ih _

theorem transfer_blames {time : Prop} (w : PointerWidth) (src : Source) (dst : Sink) (size : UInt64) (fuel : Nat) :
    Blames time (some fuel) H (transfer w src dst size fuel : Remote κ σ _) := by
  intro st b hb
  unfold transfer at hb ⊢
  have hspin := transferLoop_spins (H := H) w src dst (size.toNat % w.modulus) fuel fuel 0 st
  cases hr : (transferLoop w src dst (size.toNat % w.modulus) fuel fuel 0 : Remote κ σ _) H st with
  | mk o st' =>
    rw [hr] at hb hspin
    cases o with
    | ok a => cases hb
    | err e => cases hb
    | panic p => cases hspin _ rfl
    | spin =>
      cases hb
      have hstart : Since st.log (Transferred 0) st := since_self ⟨Nat.le_refl 0, by simp⟩
      obtain ⟨es, hlog, hmoved⟩ := (transferLoop_ran w src dst _ fuel fuel 0 0).stops hstart hr (by simp)
      exact Or.inr (.endless rfl hlog (hmoved.mono (by omega)))

end

/-! ## Operations -/

section
variable {κ σ : Type} {H : Handler Ssh σ} {time : Prop} {steps : Option Nat}

theorem fmtTimeUtc_blames {L : Libs} {t : SystemTime} {fmt : Str} (htime : L.chrono.formatUtc t fmt = none → time) :
    Blames time steps H (ofOut (fmtTimeUtc L.chrono t fmt) : Remote κ σ _) := by
  refine .ofOut fun b hb st => ?_
  unfold fmtTimeUtc at hb
  cases hfmt : L.chrono.formatUtc t fmt with
  | some text => rw [hfmt] at hb; cases hb
  | none =>
    rw [hfmt] at hb
    cases hb
    exact Or.inr (.time (htime hfmt))

theorem Piece.blames {X : Scope} {α : Type} {ts : List Work} {Q : α → Prop} {m : Remote κ σ α} (h : Piece X α ts Q m)
    (hlate : X.late → time) (hsteps : ∀ n, X.steps = some n → steps = some n) : Blames time steps H m := by
  cases h with
  | call _ => exact .call _
  | shell _ _ _ => exact performShellCmd_blames _ _
  | shellWithRc _ _ _ => exact performShellCmdWithRc_blames _ _
  | fmtTime hfmt => exact fmtTimeUtc_blames fun hnone => hlate (hfmt hnone)
  | transfer hX =>
    rw [hsteps _ hX]
    exact transfer_blames _ _ _ _ _

/-- What is put together of pieces breaks off where one of them does. -/
theorem Blames.of_built {X : κ → Scope} {υ : κ → Prop} {ρ : RemoteError → Prop} {b : Bool}
    {α : Type} {ts : κ → List Work}
    {Q : κ → α → Prop} {m : Remote κ σ α} (hm : ∀ k, Built (Piece (X k)) (υ k) ρ k b (ts k) (Q k) m)
    (hlate : ∀ k, (X k).late → time) (hsteps : ∀ k n, (X k).steps = some n → steps = some n) :
    Blames time steps H m := by
  intro st
  refine ((hm st.self).goes_only (C := (X st.self).Makes)
    (Ξ := fun b st => b = .panic .unwrapNone ∨ Reason time steps b st)
    stable_any (fun _ _ _ => trivial) (fun _ _ _ _ hp => ?_) (fun _ _ => Or.inl rfl) st rfl).breaks
  exact ⟨hp.only, hp.blames (hlate _) (hsteps _), hp.value⟩

end

/-! ### The SCP client -/

namespace ScpFs

variable {σ : Type} {H : Handler Ssh σ} {time : Prop} {steps : Option Nat}

theorem checkConnection_blames : Blames time steps H (checkConnection : Remote ScpFs σ _) :=
  .of_built (ρ := Refused) (υ := fun _ => True) (fun k => checkConnection_built k.handles.covers.sees)
    (fun _ h => h.elim) fun _ _ h => nomatch h

theorem changeDir_blames (dir : PathBuf) : Blames time steps H (changeDir dir : Remote ScpFs σ _) := by
  refine .bind checkConnection_blames fun _ => .self fun fs => .self fun fs' => unwrap_blames fun session =>
    .bind (.attempt (performShellCmd_blames session _)) fun r => ?_
  cases r with
  | error err => exact .throw _
  | ok output =>
    dsimp only
    split
    · rename_i h0
      -- the zero is the single byte that is sliced away
      obtain ⟨rest, hrest⟩ := List.head?_eq_some_iff.1 h0
      have hcut : sliceFrom (trim output) 1 = some rest := sliceFrom_eq_some.2 ⟨['0'], hrest, rfl⟩
      rw [hcut]
      exact .bind (.pure rest) fun _ => .bind (.modifySelf _) fun _ => .self fun _ => .pure _
    · exact .throw _

theorem connect_blames : Blames time steps H (connect : Remote ScpFs σ _) :=
  .self fun _ => .bind (RemotefsSsh.connect_blames _) fun session => .bind (.call _) fun _ =>
    .bind (performShellCmd_blames session _) fun _ => .bind (.modifySelf _) fun _ =>
      .bind (.modifySelf _) fun _ => .pure _

theorem disconnect_blames : Blames time steps H (disconnect : Remote ScpFs σ _) := by
  refine .self fun fs => ?_
  cases fs.session with
  | none => exact .throw _
  | some session =>
    refine .bind (.call _) fun r => ?_
    cases r with
    | ok _ => exact .modifySelf _
    | error err => exact .throw _

theorem run_blames (L : Libs) (op : ScpOp) : Blames (Stops L op) none H (op.run L : Remote ScpFs σ _) := by
  have hbuilt : op.assigns = false → Blames (Stops L op) none H (op.run L : Remote ScpFs σ _) := fun hop =>
    .of_built (op.built L hop) (fun _ h => h) fun _ _ h => h
  cases op with
  | connect => exact .bind connect_blames fun _ => .pure _
  | disconnect => exact disconnect_blames
  | changeDir dir => exact .bind (changeDir_blames dir) fun _ => .pure _
  | _ => exact hbuilt rfl

end ScpFs

/-! ### The SFTP client -/

namespace SftpFs

variable {σ : Type} {H : Handler Ssh σ} {time : Prop} {steps : Option Nat}

theorem checkConnection_blames : Blames time steps H (checkConnection : Remote SftpFs σ _) :=
  .of_built (ρ := Refused) (υ := fun _ => True) (fun k => checkConnection_built k.handles.covers.sees)
    (fun _ h => h.elim) fun _ _ h => nomatch h

theorem stat_blames (path : PathBuf) : Blames time steps H (stat path : Remote SftpFs σ _) :=
  .of_built (ρ := Refused) (υ := fun _ => True) (fun k => stat_built k.handles.covers.sees path)
    (fun _ h => h.elim) fun _ _ h => nomatch h

theorem connect_blames : Blames time steps H (connect : Remote SftpFs σ _) := by
  refine .self fun _ => .bind (RemotefsSsh.connect_blames _) fun session => .bind (.call _) fun _ =>
    .bind (.call _) fun r => ?_
  cases r with
  | error err => exact .throw _
  | ok sftp =>
    refine .bind (.call _) fun r => ?_
    cases r with
    | error err => exact .throw _
    | ok p =>
      refine .bind (.modifySelf _) fun _ => .bind (.modifySelf _) fun _ =>
        .bind (.modifySelf _) fun _ => .self fun _ => ?_
      exact unwrap_blames fun _ => .bind (.call _) fun _ => .pure _

theorem disconnect_blames : Blames time steps H (disconnect : Remote SftpFs σ _) := by
  refine .self fun fs => ?_
  cases fs.session with
  | none => exact .throw _
  | some session =>
    refine .bind (.call _) fun r => ?_
    cases r with
    | ok _ => exact .bind (.modifySelf _) fun _ => .modifySelf _
    | error err => exact .throw _

theorem changeDir_blames (dir : PathBuf) : Blames time steps H (changeDir dir : Remote SftpFs σ _) :=
  .bind checkConnection_blames fun _ => .self fun _ => .bind (stat_blames _) fun _ =>
    .ite (.bind (.modifySelf _) fun _ => .self fun _ => .pure _) (.throw _)

theorem run_blames (op : SftpOp) : Blames False (steps? op) H (op.run : Remote SftpFs σ _) := by
  have hbuilt : op.assigns = false → Blames False (steps? op) H (op.run : Remote SftpFs σ _) := fun hop =>
    .of_built (op.built hop) (fun _ h => h) fun _ _ h => h
  cases op with
  | connect => exact .bind connect_blames fun _ => .pure _
  | disconnect => exact disconnect_blames
  | changeDir dir => exact .bind (changeDir_blames dir) fun _ => .pure _
  | _ => exact hbuilt rfl

end SftpFs

/-! ## After any sequence of operations -/

theorem Breaks.reason {κ σ : Type} {H : Handler Ssh σ} {time : Prop} {steps : Option Nat} {m : Remote κ σ Unit}
    (hm : Blames time steps H m) {st : St Ssh κ σ} (hno : (m H st).1 ≠ .panic .unwrapNone) {b : Break}
    (hb : (m H st).1.break? = some b) : Reason time steps b (m H st).2 := by
  rcases hm st b hb with rfl | h
  · cases ho : (m H st).1 with
    | panic p =>
      rw [ho] at hb
      cases hb
      exact absurd ho hno
    | _ => rw [ho] at hb; cases hb
  · exact h

/-- No `unwrap` fails in an operation of a reachable client. -/
theorem ScpFs.unwraps {σ : Type} (H : Handler Ssh σ) (L : Libs) (opts : SshOpts) (env : σ)
    (ops : List ScpOp) (op : ScpOp) :
    (op.run L H (runAll H (ScpOp.run L) ops ⟨new opts, env, []⟩)).1 ≠ .panic .unwrapNone :=
  (run_good (sessions_any H) (dirs_any H)
    (runAll_keeps (sessions_any H) (dirs_any H) L opts env (eachStep_any fun _ _ _ _ => trivial))
      fun _ _ => trivial).unwrap

theorem SftpFs.unwraps {σ : Type} (H : Handler Ssh σ) (opts : SshOpts) (env : σ) (ops : List SftpOp) (op : SftpOp) :
    (op.run H (runAll H SftpOp.run ops ⟨new opts, env, []⟩)).1 ≠ .panic .unwrapNone :=
  (run_good (sessions_any H) (dirs_any H) (runAll_keeps (sessions_any H) (dirs_any H) opts env ops) op).unwrap

/-- **An operation of a reachable client comes back**, with a value or an error, unless there is one of three
reasons. -/
theorem operations_break_for {σ : Type} (H : Handler Ssh σ) (L : Libs) (opts : SshOpts) (env : σ) :
    (∀ (ops : List ScpOp) (op : ScpOp) (b : Break),
      (op.run L H (runAll H (ScpOp.run L) ops ⟨.new opts, env, []⟩)).1.break? = some b →
        Reason (ScpFs.Stops L op) none b (op.run L H (runAll H (ScpOp.run L) ops ⟨.new opts, env, []⟩)).2) ∧
    ∀ (ops : List SftpOp) (op : SftpOp) (b : Break),
      (op.run H (runAll H SftpOp.run ops ⟨.new opts, env, []⟩)).1.break? = some b →
        Reason False (SftpFs.steps? op) b (op.run H (runAll H SftpOp.run ops ⟨.new opts, env, []⟩)).2 :=
  ⟨fun ops op _ => Breaks.reason (ScpFs.run_blames L op) (ScpFs.unwraps H L opts env ops op),
    fun ops op _ => Breaks.reason (SftpFs.run_blames op) (SftpFs.unwraps H opts env ops op)⟩

end RemotefsSsh
