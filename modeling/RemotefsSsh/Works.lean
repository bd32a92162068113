import RemotefsSsh.Asking

/-!
# What an operation does to the other side (ssh/scp.rs, ssh/sftp.rs)

Whatever is answered, an operation gets through a first part of its plan, through all of it when it succeeds, and
through nothing of it when it is refused: not connected, nothing there, something there already, not supported
(`works_planned`).
-/

namespace RemotefsSsh

open Utf8 UnixPath Effect Prog

section
variable {κ σ α : Type} {H : Handler Ssh σ} {k : κ} {log₀ : List (Sigma SshCall.Reply)}

theorem adheres_of_built {X : Scope} {υ : Prop} {ρ : RemoteError → Prop} {plan : List Work}
    {Q : α → Prop} {m : Remote κ σ α}
    (hρ : ∀ e, ρ e → Refused e) (hm : Built (Piece X) υ ρ k false plan Q m) : Adheres work? H k ρ plan m :=
  .of_works (hm.works fun _ _ _ _ h => h.works hρ)

/-- Pieces that only look. -/
theorem done_built {X : κ → Scope} {υ : κ → Prop} {Q : κ → α → Prop} {m : Remote κ σ α}
    (hm : ∀ k, Built (Piece (X k)) (υ k) Refused k false [] (Q k) m) :
    Triple H (Effect.Done work? log₀ []) m (fun _ => Effect.Done work? log₀ []) fun _ => Effect.Done work? log₀ [] :=
  done_works fun k => (hm k).works fun _ _ _ _ h => h.works fun _ h => h

/-- Connecting and logging in is looking. -/
theorem done_connect (opts : SshOpts) : Triple H (Effect.Done work? log₀ []) (RemotefsSsh.connect opts : Remote κ σ _)
    (fun _ => Effect.Done work? log₀ []) fun _ => Effect.Done work? log₀ [] :=
  done_works (ρ := Refused) fun _ => (connect_built (υ := True) opts).works fun _ _ _ _ h => h.works

theorem done_reading (session : SshSession) {c : ShellCmd} (hrc : c.withRc = false) (hlooks : c.looks = true) :
    Triple H (Effect.Done work? log₀ []) (performShellCmd session c.text : Remote κ σ _)
      (fun _ => Effect.Done work? log₀ [])
      fun _ => Effect.Done work? log₀ [] :=
  done_built (X := fun _ => shells) (υ := fun _ => True) fun _ => reading_built trivial trivial hrc hlooks

end

/-! ## The SCP operations -/

namespace ScpFs

variable {σ : Type} {H : Handler Ssh σ} {fs : ScpFs}

theorem connect_adheres : Adheres work? H fs Refused [] (connect : Remote ScpFs σ _) := by
  refine .nothing fun log₀ => .self fun fs => .pre ?_ fun _ h => h.1
  refine .bind (done_connect _) fun session => .bind (done_only (.call rfl)) fun banner => ?_
  refine .bind (done_reading session rfl rfl) fun output => ?_
  exact .bind (done_modify _) fun _ => .bind (done_modify _) fun _ => done_only (.pure _)

theorem disconnect_adheres : Adheres work? H fs Refused [] (disconnect : Remote ScpFs σ _) := by
  refine .nothing fun log₀ => .self fun fs => .pre ?_ fun _ h => h.1
  cases fs.session with
  | none => exact done_only (.throw _)
  | some session =>
    refine .bind (done_only (.call rfl)) fun r => ?_
    cases r with
    | ok _ => exact done_modify _
    | error err => exact done_only (.throw _)

theorem changeDir_adheres (dir : PathBuf) : Adheres work? H fs Refused [] (changeDir dir : Remote ScpFs σ _) := by
  refine .nothing fun log₀ => .bind (done_built (υ := fun _ => True) fun k =>
    checkConnection_built k.handles.covers.sees)
    fun _ => .self fun fs => .pre ?_ fun _ h => h.1
  refine .self fun fs' => .pre (.bind (done_only (.unwrap _)) fun session => ?_) fun _ h => h.1
  refine .bind (.attempt (Q := fun _ => Effect.Done work? log₀ []) (done_reading session rfl rfl)
    (fun _ _ h => h) fun _ h => h)
    fun r => ?_
  cases r with
  | error err => exact done_only (.throw _)
  | ok output =>
    refine .ite (fun _ => .bind (done_only (.ofOut _)) fun rest => ?_) fun _ => done_only (.throw _)
    exact .bind (done_modify _) fun _ => .self fun fs' => .pre (done_only (.pure _)) fun _ h => h.1

/-- Each operation on its plan. -/
theorem run_adheres (L : Libs) (op : ScpOp) :
    Adheres work? H fs Refused (op.plan L fs.wrkdir) (op.run L : Remote ScpFs σ _) := by
  have hbuilt : op.assigns = false → Adheres work? H fs Refused (op.plan L fs.wrkdir) (op.run L : Remote ScpFs σ _) :=
    fun hop => adheres_of_built (fun _ h => h) (op.built L hop fs)
  cases op with
  | connect => exact connect_adheres.map _
  | disconnect => exact disconnect_adheres
  | changeDir dir => exact (changeDir_adheres dir).map _
  | _ => exact hbuilt rfl

end ScpFs

/-! ## The SFTP operations -/

theorem SftpOp.Refused.kind {op : SftpOp} {e : RemoteError} (h : op.Refused e) : RemotefsSsh.Refused e := by
  cases op with
  | appendFile _ _ _ _ => exact h.elim
  | createFile _ _ _ _ => exact h.elim
  | _ => exact h

namespace SftpFs

variable {σ : Type} {H : Handler Ssh σ} {fs : SftpFs} {ρ : RemoteError → Prop}

theorem connect_adheres : Adheres work? H fs ρ [] (connect : Remote SftpFs σ _) := by
  refine .nothing fun log₀ => .self fun fs => .pre ?_ fun _ h => h.1
  refine .bind (done_connect _) fun session => .bind (done_only (.call rfl)) fun _ =>
    .bind (done_only (.call rfl)) fun r => ?_
  cases r with
  | error err => exact done_only (.throw _)
  | ok sftp =>
    refine .bind (done_only (.call rfl)) fun r => ?_
    cases r with
    | error err => exact done_only (.throw _)
    | ok p =>
      refine .bind (done_modify _) fun _ => .bind (done_modify _) fun _ => .bind (done_modify _) fun _ => ?_
      exact done_only (.self fun fs => .bind (.unwrap _) fun session => .bind (.call rfl) fun _ => .pure _)

theorem disconnect_adheres : Adheres work? H fs ρ [] (disconnect : Remote SftpFs σ _) := by
  refine .nothing fun log₀ => .self fun fs => .pre ?_ fun _ h => h.1
  cases fs.session with
  | none => exact done_only (.throw _)
  | some session =>
    refine .bind (done_only (.call rfl)) fun r => ?_
    cases r with
    | ok _ => exact .bind (done_modify _) fun _ => done_modify _
    | error err => exact done_only (.throw _)

theorem changeDir_adheres (dir : PathBuf) : Adheres work? H fs ρ [] (changeDir dir : Remote SftpFs σ _) := by
  refine .nothing fun log₀ => .bind (done_built (υ := fun _ => True) fun k =>
    checkConnection_built k.handles.covers.sees)
    fun _ => .self fun fs => .pre ?_ fun _ h => h.1
  refine .bind (done_built (υ := fun _ => True) fun k => stat_built k.handles.covers.sees _) fun file =>
    .ite (fun _ => ?_) fun _ => done_only (.throw _)
  exact .bind (done_modify _) fun _ => done_only (.self fun _ => .pure _)

theorem run_adheres (op : SftpOp) : Adheres work? H fs op.Refused (op.plan fs.wrkdir) (op.run : Remote SftpFs σ _) := by
  have hbuilt : op.assigns = false → Adheres work? H fs op.Refused (op.plan fs.wrkdir) (op.run : Remote SftpFs σ _) :=
    fun hop => adheres_of_built (fun _ h => h.kind) (op.built hop fs)
  cases op with
  | connect => exact connect_adheres.map _
  | disconnect => exact disconnect_adheres
  | changeDir dir => exact (changeDir_adheres dir).map _
  | _ => exact hbuilt rfl

end SftpFs

/-- **In a run every operation gets through a first part of its plan: all of it when it succeeds, and nothing when it is
refused.** -/
theorem works_planned {σ : Type} (H : Handler Ssh σ) (L : Libs) :
    (∀ (ops : List ScpOp) (st : St Ssh ScpFs σ), ∃ es, (runAll H (ScpOp.run L) ops st).log = st.log ++ es ∧
      Kept H (ScpOp.run L) (fun fs op => op.plan L fs.wrkdir) (fun _ => Refused) ops st (worked work? es)) ∧
    ∀ (ops : List SftpOp) (st : St Ssh SftpFs σ), ∃ es, (runAll H SftpOp.run ops st).log = st.log ++ es ∧
      Kept H SftpOp.run (fun fs op => op.plan fs.wrkdir) SftpOp.Refused ops st (worked work? es) :=
  ⟨fun ops st => runAll_adheres (fun op _ => ScpFs.run_adheres L op) ops st,
    fun ops st => runAll_adheres (fun op _ => SftpFs.run_adheres op) ops st⟩

end RemotefsSsh
