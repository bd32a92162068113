import RemotefsSsh.FileStats
import RemotefsSsh.Missing.Scp

/-!
# What SFTP operations call missing (ssh/sftp.rs:204-565)

The probe is a STAT request. `stat` reports every failure of it as `NoSuchFileOrDirectory`, `exists`
turns that into `Ok(false)`, and the operations that look before they act do the same with what is
left. So an operation is honest when the answer is an entry or one of the two status codes for a path
that is not there (`missing_means_absent_iff`).
-/

namespace RemotefsSsh

open Utf8 UnixPath Effect Prog

/-- SSH_FX_NO_SUCH_FILE and SSH_FX_NO_SUCH_PATH. -/
def ErrorCode.saysNoSuch : ErrorCode → Bool
  | .sftp code => code == 2 || code == 10
  | .session _ => false

namespace SftpFs

/-- What the answer to a STAT request says; an error of the session is no answer. -/
def statAnswer : Except SshError FileStat → Probe
  | .ok _ => .there
  | .error e =>
    if e.code.saysNoSuch then .gone
    else match e.code with
      | .sftp _ => .unclear
      | .session _ => .lost

section
variable {σ : Type} (H : Handler Ssh σ)

/-- The request of `stat`, which is not made without a channel. -/
def asked (path : PathBuf) (st : St Ssh SftpFs σ) : List Probe :=
  match st.self.sftp with
  | some f => [statAnswer (H.reply (.stat f (absolutize st.self.wrkdir path)) st.env).1]
  | none => []

/-- The probes behind the gate. -/
def atGate (ps : St Ssh SftpFs σ → List Probe) (st : St Ssh SftpFs σ) : List Probe :=
  match checkConnection H st with
  | (.ok (), st₁) => ps st₁
  | _ => []

/-- There was one request, and it was answered either way. -/
def AskedSettled (path : PathBuf) (st : St Ssh SftpFs σ) : Prop :=
  asked H path st = [.there] ∨ asked H path st = [.gone]

/-- The request to make a directory fails. -/
def MkdirFails (path : PathBuf) (mode : UnixPex) (st : St Ssh SftpFs σ) : Prop :=
  ∃ f e, st.self.sftp = some f ∧ (H.reply (.mkdir f path mode.toU32) st.env).1 = .error e

/-- The ends of a transfer are the trait's own and do not call a path missing. -/
structure FinishLaw : Prop where
  onWritten : ∀ file env e, (H.reply (.onWritten file) env).1 = .error e → ¬ isMissing e
  onRead : ∀ file env e, (H.reply (.onRead file) env).1 = .error e → ¬ isMissing e

end

section
variable {α β σ : Type} {H : Handler Ssh σ}

/-! ### The request -/

theorem statAnswer_error (e : SshError) : statAnswer (.error e) ≠ .there := by
  by_cases h : e.code.saysNoSuch = true
  · simp [statAnswer, h]
  · rw [statAnswer, if_neg h]
    cases e.code <;> simp

theorem stat_tells (path : PathBuf) (st : St Ssh SftpFs σ) :
    (asked H path st = [] ∧ (stat path H st).1 = .err (.new .notConnected)) ∨
      (asked H path st = [.there] ∧ ∃ file, (stat path H st).1 = .ok file) ∨
      ∃ p e, asked H path st = [p] ∧ p ≠ .there ∧ (stat path H st).1 = .err e ∧ isMissing e := by
  unfold asked stat withSftp
  rw [bind_ok self_run]
  cases hf : st.self.sftp with
  | none => exact Or.inl ⟨rfl, rfl⟩
  | some f =>
    dsimp only
    unfold orKind
    rw [bind_ok self_run, bind_run, bind_ok (ask_run _ _)]
    cases hr : (H.reply (.stat f (absolutize st.self.wrkdir path)) st.env).1 with
    | error e => exact Or.inr (Or.inr ⟨_, _, rfl, statAnswer_error e, rfl, rfl⟩)
    | ok m =>
      let st₁ : St Ssh SftpFs σ := ⟨st.self, (H.reply (.stat f (absolutize st.self.wrkdir path)) st.env).2,
        st.log ++ [⟨.stat f (absolutize st.self.wrkdir path), .ok m⟩]⟩
      have hf₁ : st₁.self.sftp = some f := hf
      obtain ⟨file, st', hrun⟩ := makeFsentry_run (H := H) (s := m) (fun _ => ⟨f, hf₁⟩) (absolutize st.self.wrkdir path)
      exact Or.inr (Or.inl ⟨rfl, file, congrArg Prod.fst hrun⟩)

theorem existsPath_tells (path : PathBuf) (st : St Ssh SftpFs σ) :
    (asked H path st = [] ∧ (existsPath path H st).1 = .err (.new .notConnected)) ∨
      ∃ p, asked H path st = [p] ∧ (existsPath path H st).1 = .ok (decide (p = .there)) := by
  have h := stat_tells (H := H) path st
  unfold existsPath
  rw [bind_run]
  unfold attempt
  cases hr : stat path H st with
  | mk o st' =>
    rw [hr] at h
    rcases h with ⟨hnone, he⟩ | ⟨hp, file, he⟩ | ⟨p, e, hp, hne, he, hm⟩
    · cases he
      exact Or.inl ⟨hnone, rfl⟩
    · cases he
      exact Or.inr ⟨_, hp, rfl⟩
    · cases he
      refine Or.inr ⟨p, hp, ?_⟩
      show ((if e.kind = .noSuchFileOrDirectory then pure false else throw e : Remote SftpFs σ Bool) H st').1 = _
      have hkind : e.kind = .noSuchFileOrDirectory := hm
      rw [if_pos hkind, decide_eq_false hne]
      rfl

theorem existsOrFalse_tells (path : PathBuf) (st : St Ssh SftpFs σ) :
    (existsOrFalse path H st).1 = .ok (decide (asked H path st = [.there])) := by
  have h := existsPath_tells (H := H) path st
  unfold existsOrFalse
  rw [bind_run]
  unfold attempt
  cases hr : existsPath path H st with
  | mk o st' =>
    rw [hr] at h
    rcases h with ⟨hnone, he⟩ | ⟨p, hp, he⟩
    · cases he
      rw [hnone]
      rfl
    · cases he
      rw [hp]
      simp

/-! ### The shapes of the operations -/

theorem isConnected_run (st : St Ssh SftpFs σ) : ∃ b st', isConnected H st = (.ok b, st') := by
  unfold isConnected
  rw [bind_ok self_run]
  cases st.self.session with
  | none => exact ⟨false, st, rfl⟩
  | some s => exact ⟨_, _, rfl⟩

theorem checkConnection_cases (H : Handler Ssh σ) (st : St Ssh SftpFs σ) :
    (∃ st₁, checkConnection H st = (.ok (), st₁)) ∨ ∃ st₁, checkConnection H st = (.err (.new .notConnected), st₁) := by
  obtain ⟨b, st', hrun⟩ := isConnected_run (H := H) st
  unfold checkConnection
  rw [bind_ok hrun]
  cases b with
  | true => exact Or.inl ⟨st', rfl⟩
  | false => exact Or.inr ⟨st', rfl⟩

/-- The transfers ask the same of the connection as the gate. -/
theorem connected_run (m : Remote SftpFs σ α) (st : St Ssh SftpFs σ) :
    (do if ← isConnected then m else throw (.new .notConnected)) H st = (checkConnection >>= fun _ => m) H st := by
  obtain ⟨b, st', hrun⟩ := isConnected_run (H := H) st
  have hgate : checkConnection H st = (if b then pure () else throw (.new .notConnected) :
    Remote SftpFs σ Unit) H st' := by
    unfold checkConnection
    rw [bind_ok hrun]
  rw [bind_ok hrun]
  cases b with
  | true => rw [bind_ok hgate]; rfl
  | false => rw [bind_err hgate]; rfl

theorem honest_gate {m : Remote SftpFs σ α} {ps : St Ssh SftpFs σ → List Probe} {C : St Ssh SftpFs σ → Prop}
    (h : ∀ st, Honest (ps st) (Missing (m H st).1) (m H st).1 ↔ C st) (st : St Ssh SftpFs σ) :
    Honest (atGate H ps st)
        (Missing ((checkConnection >>= fun _ => m) H st).1) ((checkConnection >>= fun _ => m) H st).1 ↔
      ∀ st₁, checkConnection H st = (.ok (), st₁) → C st₁ := by
  unfold atGate
  rcases checkConnection_cases H st with ⟨st₁, hrun⟩ | ⟨st₁, hrun⟩
  · rw [bind_ok hrun]
    simp only [hrun, Prod.mk.injEq, true_and, forall_eq']
    exact h st₁
  · rw [bind_err hrun]
    simp only [hrun, Prod.mk.injEq, reduceCtorEq, false_and, false_imp_iff, implies_true, iff_true]
    exact honest_nil (by rintro ⟨e, he, hm⟩; cases he; simp [isMissing, RemoteError.kind] at hm)

theorem settled_of_asked {path : PathBuf} {st : St Ssh SftpFs σ} {p : Probe} (h : asked H path st = [p]) :
    AskedSettled H path st ↔ p.Settled := by
  unfold AskedSettled Probe.Settled
  rw [h]
  simp

/-- An operation that does nothing unless the path is there. -/
theorem honest_guarded {A : Remote SftpFs σ α} (hA : Avoids H isMissing A) (path : PathBuf) (st : St Ssh SftpFs σ) :
    Honest (asked H path st)
        (Missing ((do if ← existsOrFalse path then A else throw (.new .noSuchFileOrDirectory)) H st).1)
        ((do if ← existsOrFalse path then A else throw (.new .noSuchFileOrDirectory)) H st).1 ↔
      AskedSettled H path st := by
  have hrun : existsOrFalse path H st = (.ok (decide (asked H path st = [.there])), (existsOrFalse path H st).2) :=
    Prod.ext (existsOrFalse_tells path st) rfl
  rw [bind_ok hrun]
  rcases stat_tells (H := H) path st with ⟨hp, _⟩ | ⟨hp, _⟩ | ⟨p, e, hp, hne, _⟩
  · -- no request was made, and yet the path is called missing
    refine iff_of_false (fun hh => ?_) (by simp [AskedSettled, hp])
    have hgone := hh.absent (by rw [hp]; exact ⟨_, rfl, rfl⟩)
    rw [hp] at hgone
    exact absurd hgone List.not_mem_nil
  · rw [settled_of_asked hp, hp]
    exact honest_iff_settled (fun _ => not_missing_of_avoids hA) fun hno => absurd (Or.inl rfl) hno
  · rw [settled_of_asked hp, hp, decide_eq_false (by simpa using hne)]
    refine honest_iff_settled (fun h => absurd h hne) fun _ => ?_
    rintro ⟨e, he, hm⟩
    cases he
    exact hm rfl

/-- An operation that begins with `stat`. -/
theorem honest_stat {f : File → Remote SftpFs σ α} (hf : ∀ file, Avoids H isMissing (f file)) (path : PathBuf)
    (st : St Ssh SftpFs σ) :
    Honest (asked H path st) (Missing ((stat path >>= f) H st).1) ((stat path >>= f) H st).1 ↔
      ∀ p ∈ asked H path st, p.Settled := by
  cases hr : stat path H st with
  | mk o st' =>
    have h := stat_tells (H := H) path st
    rw [hr] at h
    rcases h with ⟨hp, he⟩ | ⟨hp, file, he⟩ | ⟨p, e, hp, hne, he, hm⟩ <;> cases he <;> rw [hp]
    · rw [bind_err hr]
      refine iff_of_true (honest_nil ?_) (by simp)
      rintro ⟨e, he, hm⟩
      cases he
      simp [isMissing, RemoteError.kind] at hm
    · rw [bind_ok hr]
      exact iff_of_true (honest_there (not_missing_of_avoids (hf file))) (by simp [Probe.Settled])
    · rw [bind_err hr]
      simp only [List.mem_singleton, forall_eq]
      refine honest_iff_settled (fun h => absurd h hne) fun _ => ?_
      rintro ⟨e', he', hm'⟩
      cases he'
      exact hm' hm

theorem orKind_avoids {kind : RemoteErrorType} (hkind : kind ≠ .noSuchFileOrDirectory)
    {m : Remote SftpFs σ (Except SshError α)} (hm : Avoids H isMissing m) : Avoids H isMissing (orKind kind m) := by
  refine .bind hm fun r => ?_
  cases r with
  | ok a => exact .pure a
  | error e => exact .throw hkind

theorem withSftp_avoids {path : PathBuf} {op : SshSftp → PathBuf → Remote SftpFs σ α}
    (hop : ∀ f p, Avoids H isMissing (op f p)) : Avoids H isMissing (withSftp path op) := by
  refine .self fun fs => ?_
  cases fs.sftp with
  | some f => exact .self fun fs => hop f _
  | none => exact .throw (by simp [isMissing, RemoteError.kind])

theorem makeFsentry_avoids (path : PathBuf) (m : FileStat) : Avoids H isMissing (makeFsentry path m) := by
  refine .bind (.ite (.self fun fs => .bind (.unwrap _) fun f => .bind (.call _) fun r => ?_)
    (.pure _)) fun _ => .pure _
  cases r with
  | ok p => exact .pure _
  | error e => exact .pure _

theorem makeFsentries_avoids (es : List (PathBuf × FileStat)) : Avoids H isMissing (makeFsentries es) := by
  induction es with
  | nil => exact .pure _
  | cons e es ih => exact .bind (makeFsentry_avoids e.1 e.2) fun _ => .bind ih fun _ => .pure _

theorem writeLoop_avoids (dst : Sink) (buffer : List UInt8) (fuel delta : Nat) :
    Avoids H isMissing (writeLoop dst buffer fuel delta : Remote SftpFs σ Unit) := by
  induction fuel generalizing delta with
  | zero => exact .spin
  | succ fuel ih =>
    refine .ite (.bind (by cases dst <;> exact .call _) fun r => ?_) (.pure ())
    cases r with
    | ok n => exact ih _
    | error e => exact .throw (by simp [isMissing, RemoteError.kind])

theorem transferLoop_avoids (w : PointerWidth) (src : Source) (dst : Sink) (transferSize inner fuel bytes : Nat) :
    Avoids H isMissing (transferLoop w src dst transferSize inner fuel bytes : Remote SftpFs σ Nat) := by
  induction fuel generalizing bytes with
  | zero => exact .spin
  | succ fuel ih =>
    refine .ite (.bind (by cases src <;> exact .call _) fun r => ?_) (.pure bytes)
    cases r with
    | ok buffer => exact .bind (writeLoop_avoids dst _ inner 0) fun _ => ih _
    | error e => exact .throw (by simp [isMissing, RemoteError.kind])

theorem isConnected_avoids : Avoids H isMissing (isConnected : Remote SftpFs σ Bool) := by
  refine .self fun fs => ?_
  cases fs.session with
  | some s => exact .call _
  | none => exact .pure false

theorem finish_avoids {m : Remote SftpFs σ (RemoteResult Unit)} (hm : Avoids H isMissing m)
    (hr : ∀ st e, (m H st).1 = .ok (.error e) → ¬ isMissing e) : Avoids H isMissing (finish m) := by
  intro st e h
  unfold finish at h
  rw [bind_run] at h
  cases hrun : m H st with
  | mk o st' =>
    rw [hrun] at h
    cases o with
    | ok r =>
      cases r with
      | ok _ => cases h
      | error e' =>
        cases h
        exact hr st _ (by rw [hrun])
    | err e' =>
      cases h
      exact hm st _ (by rw [hrun])
    | panic q => cases h
    | spin => cases h

/-! ### Operations behind `exists` -/

theorem notConnected_other : OtherError (.err (.new .notConnected) : Out RemoteError α) :=
  ⟨_, rfl, by simp [isMissing, RemoteError.kind]⟩

/-- An operation on what is there, which reports a request that cannot be made. -/
theorem honest_if_there {A : Remote SftpFs σ α} (hA : Avoids H isMissing A) (path : PathBuf) (st : St Ssh SftpFs σ) :
    Honest (asked H path st)
        (Missing ((do if ← existsPath path then A else throw (.new .noSuchFileOrDirectory)) H st).1)
        ((do if ← existsPath path then A else throw (.new .noSuchFileOrDirectory)) H st).1 ↔
      ∀ p ∈ asked H path st, p.Settled := by
  rcases existsPath_tells (H := H) path st with ⟨hp, he⟩ | ⟨p, hp, he⟩
  · have hrun : existsPath path H st = (.err (.new .notConnected), (existsPath path H st).2) := Prod.ext he rfl
    rw [hp, bind_err hrun]
    exact iff_of_true (honest_other notConnected_other) (by simp)
  · have hrun : existsPath path H st = (.ok (decide (p = .there)), (existsPath path H st).2) := Prod.ext he rfl
    simp only [hp, List.mem_singleton, forall_eq]
    rw [bind_ok hrun]
    by_cases hthere : p = .there
    · rw [decide_eq_true hthere]
      exact honest_iff_settled (fun _ => not_missing_of_avoids hA) fun hno => absurd (Or.inl hthere) hno
    · rw [decide_eq_false hthere]
      refine honest_iff_settled (fun h => absurd h hthere) fun _ => ?_
      rintro ⟨e, he, hm⟩
      cases he
      exact hm rfl

/-- An operation on what is not there yet. -/
theorem honest_unless {B : Remote SftpFs σ α} (hB : Avoids H isMissing B) (path : PathBuf) (st : St Ssh SftpFs σ) :
    Honest (asked H path st)
        (Missing ((do if ← existsPath path then throw (.new .directoryAlreadyExists) else B) H st).1)
        ((do if ← existsPath path then throw (.new .directoryAlreadyExists) else B) H st).1 ↔
      ∀ p ∈ asked H path st, p.Settled ∨ OtherError (B H (existsPath path H st).2).1 := by
  have hmiss : ¬ Missing ((do if ← existsPath path then throw (.new .directoryAlreadyExists) else B) H st).1 := by
    rcases existsPath_tells (H := H) path st with ⟨hp, he⟩ | ⟨p, hp, he⟩
    · have hrun : existsPath path H st = (.err (.new .notConnected), (existsPath path H st).2) := Prod.ext he rfl
      rw [bind_err hrun]
      exact not_missing_of_other notConnected_other
    · have hrun : existsPath path H st = (.ok (decide (p = .there)), (existsPath path H st).2) := Prod.ext he rfl
      rw [bind_ok hrun]
      exact not_missing_of_avoids (.ite (.throw (by simp [isMissing, RemoteError.kind])) hB)
  rw [honest_iff_of_not_missing hmiss]
  refine forall₂_congr fun p hmem => ?_
  rcases existsPath_tells (H := H) path st with ⟨hp, _⟩ | ⟨q, hp, he⟩
  · rw [hp] at hmem
    exact absurd hmem List.not_mem_nil
  · rw [hp] at hmem
    obtain rfl := List.mem_singleton.1 hmem
    have hrun : existsPath path H st = (.ok (decide (p = .there)), (existsPath path H st).2) := Prod.ext he rfl
    rw [bind_ok hrun]
    by_cases hthere : p = .there
    · exact iff_of_true (fun hno => absurd (Or.inl hthere) hno) (Or.inl (Or.inl hthere))
    · rw [decide_eq_false hthere, if_neg (by simp)]
      exact ⟨fun h => or_iff_not_imp_left.2 h, fun h hno => h.resolve_left hno⟩

theorem mkdir_other_iff {f : SshSftp} {st : St Ssh SftpFs σ} (hf : st.self.sftp = some f)
    (path : PathBuf) (mode : UnixPex) :
    OtherError ((do
        let sftp ← unwrap (← self).sftp
        orKind .fileCreateDenied (ask (.mkdir sftp path mode.toU32)) : Remote SftpFs σ Unit) H st).1 ↔
      MkdirFails H path mode st := by
  unfold MkdirFails orKind
  rw [bind_ok self_run, hf, bind_ok (unwrap_run f), bind_ok (ask_run _ _)]
  cases hr : (H.reply (.mkdir f path mode.toU32) st.env).1 with
  | ok u =>
    exact iff_of_false (by rintro ⟨e, he, _⟩; cases he) (by rintro ⟨g, e, hg, he⟩; cases hg; rw [hr] at he; cases he)
  | error e => exact iff_of_true ⟨_, rfl, by simp [isMissing, RemoteError.kind]⟩ ⟨f, e, rfl, hr⟩

/-! ### `open_file`, which asks twice -/

theorem bind_assoc_run {γ : Type} (m : Remote SftpFs σ α) (f : α → Remote SftpFs σ β) (g : β → Remote SftpFs σ γ)
    (st : St Ssh SftpFs σ) : ((m >>= f) >>= g) H st = (m >>= fun a => f a >>= g) H st := by
  rw [bind_run, bind_run, bind_run]
  cases m H st with
  | mk o st' => cases o <;> rfl

theorem openRead_then_honest {k : RemoteFile → Remote SftpFs σ α} (hk : ∀ file, Avoids H isMissing (k file))
    (path : PathBuf) (st : St Ssh SftpFs σ) :
    Honest (atGate H (fun st₁ => asked H (absolutize st₁.self.wrkdir path) st₁) st)
        (Missing ((openRead path >>= k) H st).1) ((openRead path >>= k) H st).1 ↔
      ∀ st₁, checkConnection H st = (.ok (), st₁) → AskedSettled H (absolutize st₁.self.wrkdir path) st₁ := by
  unfold openRead
  rw [bind_assoc_run]
  refine honest_gate (fun st => ?_) st
  rw [bind_assoc_run, bind_ok self_run, bind_assoc_run]
  generalize absolutize st.self.wrkdir path = p
  have hopen : Avoids H isMissing (do
      let sftp ← unwrap (← self).sftp
      orKind .couldNotOpenFile (ask (.openRead sftp p)) : Remote SftpFs σ RemoteFile) :=
    .self fun fs => .bind (.unwrap _) fun f => orKind_avoids (by simp) (.call _)
  have hif : ∀ A : Remote SftpFs σ RemoteFile,
      (fun b => (if b = true then A else throw (.new .noSuchFileOrDirectory)) >>= k) =
        fun b => if b = true then A >>= k else throw (.new .noSuchFileOrDirectory) := by
    intro A
    funext b
    cases b <;> rfl
  rw [hif]
  exact honest_guarded (.bind hopen hk) p st

/-! ### All operations -/

section
variable (H)

/-- What an operation that is let through makes the server say of its paths. -/
def probesAt : SftpOp → St Ssh SftpFs σ → List Probe
  | .changeDir path, st | .copy path _, st | .mov path _, st | .openRead path, st | .createDir path _, st =>
    asked H (absolutize st.self.wrkdir path) st
  | .symlink _ target, st => asked H target st
  | .openFile _ _ path, st =>
    asked H path st ++
      if asked H path st = [.there] then
        atGate H (fun st₁ => asked H (absolutize st₁.self.wrkdir path) st₁) (stat path H st).2
      else []
  | _, _ => []

/-- The condition for an operation that is let through. -/
def ClearAt : SftpOp → St Ssh SftpFs σ → Prop
  | .changeDir path, st => ∀ p ∈ asked H (absolutize st.self.wrkdir path) st, p.Settled
  | .copy path _, st | .mov path _, st | .openRead path, st => AskedSettled H (absolutize st.self.wrkdir path) st
  | .createDir path mode, st =>
    let path := absolutize st.self.wrkdir path
    ∀ p ∈ asked H path st, p.Settled ∨ MkdirFails H path mode (existsPath path H st).2
  | .symlink _ target, st => ∀ p ∈ asked H target st, p.Settled
  | .openFile _ _ path, st =>
    (∀ p ∈ asked H path st, p.Settled) ∧ (asked H path st = [.there] →
      ∀ st₁, checkConnection H (stat path H st).2 = (.ok (), st₁) →
        AskedSettled H (absolutize st₁.self.wrkdir path) st₁)
  | _, _ => True

def probes (op : SftpOp) (st : St Ssh SftpFs σ) : List Probe :=
  match op with
  | .stat path | .existsPath path => asked H path st
  | op => atGate H (probesAt H op) st

def Clear (op : SftpOp) (st : St Ssh SftpFs σ) : Prop :=
  match op with
  | .stat path | .existsPath path => ∀ p ∈ asked H path st, p.Settled
  | op => ∀ st₁, checkConnection H st = (.ok (), st₁) → ClearAt H op st₁

/-- The outcome calls the path missing; for `exists` that is also `Ok(false)`. -/
def missing (op : SftpOp) (st : St Ssh SftpFs σ) : Prop :=
  match op with
  | .existsPath path => (existsPath path H st).1 = .ok false ∨ Missing (existsPath path H st).1
  | op => Missing (op.run H st).1

def TakesPath : SftpOp → Prop
  | .connect | .disconnect | .isConnected | .pwd | .exec _ => False
  | _ => True

end

theorem upload_avoids (hH : FinishLaw H) (w : PointerWidth) (fuel : Nat) {opening : Remote SftpFs σ RemoteFile}
    (ho : Avoids H isMissing opening) (m : Metadata) : Avoids H isMissing (upload w fuel opening m) :=
  .bind isConnected_avoids fun _ => .ite
    (.bind ho fun file => .bind (transferLoop_avoids w _ _ _ _ _ _) fun _ =>
      .bind (finish_avoids (.call _) fun st e he => hH.onWritten file st.env e (Out.ok.inj he)) fun _ => .pure _)
    (.throw (by simp [isMissing, RemoteError.kind]))

theorem openFile_honest (hH : FinishLaw H) (w : PointerWidth) (fuel : Nat) (path : PathBuf) (st : St Ssh SftpFs σ) :
    Honest (probes H (.openFile w fuel path) st) (Missing (openFile w fuel path H st).1) (openFile w fuel path H st).1 ↔
      Clear H (.openFile w fuel path) st := by
  have htail : ∀ (file : File) (stream : RemoteFile), Avoids H isMissing (do
      let bytes ← transfer w (.remote stream) .writer file.metadata.size fuel
      finish (ask (.onRead stream))
      pure (UInt64.ofNat bytes) : Remote SftpFs σ UInt64) := fun file stream =>
    .bind (transferLoop_avoids w _ _ _ _ _ _) fun _ =>
      .bind (finish_avoids (.call _) fun st e he => hH.onRead stream st.env e (Out.ok.inj he)) fun _ => .pure _
  unfold openFile
  rw [connected_run]
  refine honest_gate (C := ClearAt H (.openFile w fuel path)) (fun st => ?_) st
  have h := stat_tells (H := H) path st
  unfold probesAt ClearAt
  cases hr : stat path H st with
  | mk o st' =>
    rw [hr] at h
    rcases h with ⟨hp, he⟩ | ⟨hp, file, he⟩ | ⟨p, e, hp, hne, he, hm⟩ <;> cases he <;> simp only [hp, hr]
    · rw [bind_err hr]
      exact iff_of_true (honest_other notConnected_other) (by simp)
    · rw [bind_ok hr, if_pos trivial]
      have hopen := openRead_then_honest (H := H) (htail file) path st'
      constructor
      · intro hh
        refine ⟨by simp [Probe.Settled], fun _ => hopen.1
          ⟨fun hm => ?_, fun p hp => hh.reported p (List.mem_append_right _ hp)⟩⟩
        exact (List.mem_append.1 (hh.absent hm)).resolve_left (by simp)
      · rintro ⟨-, hc⟩
        have hh := hopen.2 (hc trivial)
        refine ⟨fun hm => List.mem_append_right _ (hh.absent hm), fun p hp hno => ?_⟩
        rcases List.mem_append.1 hp with hp | hp
        · exact absurd (Or.inl (List.mem_singleton.1 hp)) hno
        · exact hh.reported p hp hno
    · rw [bind_err hr, if_neg (by simpa using hne), List.append_nil]
      have hiff : Honest [p] (Missing (.err e : Out RemoteError UInt64)) (.err e) ↔ p.Settled :=
        honest_iff_settled (fun h => absurd h hne) fun _ => by
          rintro ⟨e', he', hm'⟩
          cases he'
          exact hm' hm
      exact hiff.trans ⟨fun hs => ⟨by simpa using hs, fun h => absurd h (by simpa using hne)⟩, fun hs =>
        hs.1 p List.mem_cons_self⟩

/-- An operation that asks for no path first. -/
theorem honest_blind {ps : St Ssh SftpFs σ → List Probe} (hps : ∀ st, ps st = []) {m : Remote SftpFs σ α}
    (hm : Avoids H isMissing m) (st : St Ssh SftpFs σ) :
    Honest (atGate H ps st) (Missing (m H st).1) (m H st).1 ↔ ∀ st₁, checkConnection H st = (.ok (), st₁) → True := by
  refine iff_of_true ?_ fun _ _ => trivial
  have hnil : atGate H ps st = [] := by
    unfold atGate
    split
    · exact hps _
    · rfl
  rw [hnil]
  exact honest_nil (not_missing_of_avoids hm)

theorem existsPath_honest (path : PathBuf) (st : St Ssh SftpFs σ) :
    Honest (asked H path st) ((existsPath path H st).1 = .ok false ∨ Missing (existsPath path H st).1)
        (existsPath path H st).1 ↔ ∀ p ∈ asked H path st, p.Settled := by
  rcases existsPath_tells (H := H) path st with ⟨hp, he⟩ | ⟨p, hp, he⟩ <;> rw [hp, he]
  · refine iff_of_true ⟨?_, fun _ _ _ => notConnected_other⟩ (by simp)
    rintro (h | h)
    · cases h
    · exact absurd h (not_missing_of_other notConnected_other)
  · have hno : ¬ OtherError (.ok (decide (p = .there))) := by rintro ⟨e, he, _⟩; cases he
    simp only [List.mem_singleton, forall_eq]
    constructor
    · intro hh
      by_contra hs
      exact hno (hh.reported p List.mem_cons_self hs)
    · rintro (rfl | rfl)
      · refine ⟨?_, fun q hq hs => absurd (Or.inl (List.mem_singleton.1 hq)) hs⟩
        rintro (h | ⟨e, h, _⟩) <;> cases h
      · exact ⟨fun _ => List.mem_cons_self, fun q hq hs => absurd (Or.inr (List.mem_singleton.1 hq)) hs⟩

theorem createDir_honest (path : PathBuf) (mode : UnixPex) (st : St Ssh SftpFs σ) :
    Honest (probes H (.createDir path mode) st) (Missing (createDir path mode H st).1) (createDir path mode H st).1 ↔
      Clear H (.createDir path mode) st := by
  unfold createDir
  refine honest_gate (C := ClearAt H (.createDir path mode)) (fun st => ?_) st
  rw [bind_ok self_run]
  refine (honest_unless (.self fun fs => .bind (.unwrap _) fun f => orKind_avoids (by simp) (.call _)) _ st).trans ?_
  unfold ClearAt
  refine forall₂_congr fun p hp => or_congr_right ?_
  cases hf : st.self.sftp with
  | none =>
    unfold asked at hp
    rw [hf] at hp
    exact absurd hp List.not_mem_nil
  | some f => exact mkdir_other_iff (by rw [existsPath_self]; exact hf) _ mode

theorem run_honest_iff (hH : FinishLaw H) (op : SftpOp) (hop : TakesPath op) (st : St Ssh SftpFs σ) :
    Honest (probes H op st) (missing H op st) (op.run H st).1 ↔ Clear H op st := by
  cases op with
  | connect => exact hop.elim
  | disconnect => exact hop.elim
  | isConnected => exact hop.elim
  | pwd => exact hop.elim
  | exec cmd => exact hop.elim
  | changeDir dir =>
    refine honest_run_iff.trans ?_
    unfold changeDir
    refine honest_gate (C := ClearAt H (.changeDir dir)) (fun st => ?_) st
    rw [bind_ok self_run]
    exact honest_stat (fun file => .ite (.bind (.modifySelf _) fun _ => .self fun fs => .pure _)
      (.throw (by simp [isMissing, RemoteError.kind]))) _ st
  | stat path => exact honest_stat (fun _ => .pure _) path st
  | existsPath path => exact honest_dropValue.trans (existsPath_honest path st)
  | listDir path =>
    exact honest_run_iff.trans (honest_blind (fun _ => rfl) (withSftp_avoids fun f p =>
      .bind (orKind_avoids (by simp) (.call _)) fun es => makeFsentries_avoids es) st)
  | setstat path m =>
    exact honest_blind (fun _ => rfl) (withSftp_avoids fun f p => orKind_avoids (by simp) (.call _)) st
  | removeFile path =>
    exact honest_blind (fun _ => rfl) (withSftp_avoids fun f p => orKind_avoids (by simp) (.call _)) st
  | removeDir path =>
    exact honest_blind (fun _ => rfl) (withSftp_avoids fun f p => orKind_avoids (by simp) (.call _)) st
  | createDir path mode => exact createDir_honest path mode st
  | symlink path target =>
    show Honest (probes H (.symlink path target) st) (Missing (symlink path target H st).1)
      (symlink path target H st).1 ↔ _
    unfold symlink
    refine honest_gate (C := ClearAt H (.symlink path target)) (fun st => ?_) st
    rw [bind_ok self_run]
    exact honest_if_there (.self fun fs => .bind (.unwrap _) fun f => orKind_avoids (by simp) (.call _)) target st
  | copy src dest =>
    show Honest (probes H (.copy src dest) st) (Missing (copy src dest H st).1) (copy src dest H st).1 ↔ _
    unfold copy
    refine honest_gate (C := ClearAt H (.copy src dest)) (fun st => ?_) st
    rw [bind_ok self_run]
    refine honest_guarded (.self fun fs => .self fun fs => .bind (.unwrap _) fun s =>
      .bind (.attempt _) fun r => ?_) _ st
    cases r with
    | ok p => exact .ite (.pure ()) (.throw (by simp [isMissing, RemoteError.kind]))
    | error e => exact .throw (by simp [isMissing, RemoteError.kind])
  | mov src dest =>
    show Honest (probes H (.mov src dest) st) (Missing (mov src dest H st).1) (mov src dest H st).1 ↔ _
    unfold mov
    refine honest_gate (C := ClearAt H (.mov src dest)) (fun st => ?_) st
    rw [bind_ok self_run]
    exact honest_guarded (.self fun fs => .self fun fs => .bind (.unwrap _) fun f =>
      orKind_avoids (by simp) (.call _)) _ st
  | append path m =>
    exact honest_run_iff.trans (honest_blind (fun _ => rfl)
      (withSftp_avoids fun f p => orKind_avoids (by simp) (.call _)) st)
  | create path m =>
    exact honest_run_iff.trans (honest_blind (fun _ => rfl)
      (withSftp_avoids fun f p => orKind_avoids (by simp) (.call _)) st)
  | openRead path =>
    refine honest_run_iff.trans ?_
    unfold openRead
    refine honest_gate (C := ClearAt H (.openRead path)) (fun st => ?_) st
    rw [bind_ok self_run]
    exact honest_guarded (.self fun fs => .bind (.unwrap _) fun f => orKind_avoids (by simp) (.call _)) _ st
  | appendFile w fuel path m =>
    exact honest_run_iff.trans (honest_blind (fun _ => rfl) (upload_avoids hH w fuel (withSftp_avoids fun f p =>
      orKind_avoids (by simp) (.call _)) m) st)
  | createFile w fuel path m =>
    exact honest_run_iff.trans (honest_blind (fun _ => rfl) (upload_avoids hH w fuel (withSftp_avoids fun f p =>
      orKind_avoids (by simp) (.call _)) m) st)
  | openFile w fuel path => exact honest_run_iff.trans (openFile_honest hH w fuel path st)

end

end SftpFs

/-! ## Both clients -/

/-- **An operation only calls a path missing when the server said so, and reports any other failure of its
probe as another error, exactly when it is clear.** -/
theorem missing_means_absent_iff {σ : Type} {H : Handler Ssh σ} (hH : SftpFs.FinishLaw H) (L : Libs)
    (gone : PathBuf → Bool) :
    (∀ op : ScpOp, ScpFs.TakesPath op → ∀ st,
      Honest (ScpFs.probes gone H L op st) (ScpFs.missing H L op st) (op.run L H st).1 ↔ ScpFs.Clear gone H L op st) ∧
    ∀ op : SftpOp, SftpFs.TakesPath op → ∀ st,
      Honest (SftpFs.probes H op st) (SftpFs.missing H op st) (op.run H st).1 ↔ SftpFs.Clear H op st :=
  ⟨ScpFs.run_honest_iff gone, SftpFs.run_honest_iff hH⟩

/-- A server that answers every STAT request with a status code. -/
def statusServer (code : Int) : Handler Ssh Unit where
  reply
    | .stat .., _ => (.error ⟨.sftp code, "failure".toList⟩, ())
    | c, _ => (okReply c, ())

theorem statusServer_finish (code : Int) : SftpFs.FinishLaw (statusServer code) where
  onWritten _ _ _ h := by cases h
  onRead _ _ _ h := by cases h

def statusStart : St Ssh SftpFs Unit := ⟨⟨some ⟨0⟩, some ⟨0⟩, "/srv".toList, SshOpts.new "h".toList⟩, (), []⟩

/-- Code 2: the path is not there. -/
theorem missing_means_absent_no_such_file :
    Honest (SftpFs.probes (statusServer 2) (.existsPath "a".toList) statusStart)
      (SftpFs.missing (statusServer 2) (.existsPath "a".toList) statusStart)
      ((SftpOp.existsPath "a".toList).run (statusServer 2) statusStart).1 :=
  ((missing_means_absent_iff (statusServer_finish 2) sampleLibs fun _ => false).2 (.existsPath "a".toList) trivial
    statusStart).2 fun _ hp => Or.inr (List.mem_singleton.1 hp)

/-- Code 3: nobody may look, and the path is called missing. -/
theorem stat_denied_is_missing :
    SftpFs.probes (statusServer 3) (.stat "/root/a".toList) statusStart = [.unclear] ∧
      (SftpFs.stat "/root/a".toList (statusServer 3) statusStart).1 =
        .err (.newEx .noSuchFileOrDirectory "failure".toList) ∧
      ¬ Honest (SftpFs.probes (statusServer 3) (.stat "/root/a".toList) statusStart)
        (SftpFs.missing (statusServer 3) (.stat "/root/a".toList) statusStart)
        ((SftpOp.stat "/root/a".toList).run (statusServer 3) statusStart).1 := by
  have hp : SftpFs.probes (statusServer 3) (.stat "/root/a".toList) statusStart = [.unclear] := rfl
  refine ⟨hp, rfl, fun h => ?_⟩
  have hgone := h.absent ⟨_, rfl, rfl⟩
  rw [hp] at hgone
  simp at hgone

end RemotefsSsh
