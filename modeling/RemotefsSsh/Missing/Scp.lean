import RemotefsSsh.Client
import RemotefsSsh.Listing
import RemotefsSsh.Missing.Probe

/-!
# What SCP operations call missing (ssh/scp.rs:272-665)
-/

namespace RemotefsSsh

open Utf8 UnixPath Effect Prog

namespace ScpFs

section
variable {σ : Type} (L : Libs) (gone : PathBuf → Bool) (H : Handler Ssh σ)

/-- The answer to `test -e`. -/
def verdict (gone : Bool) : Out RemoteError (UInt32 × Str) → Probe
  | .ok (rc, _) => if rc = 0 then .there else if rc = 1 ∧ gone = true then .gone else .unclear
  | .err _ => .lost
  | .panic _ | .spin => .broken

/-- The probe in `exists`, which checks the connection first. -/
def probe (path : PathBuf) (st : St Ssh ScpFs σ) : Probe :=
  match checkConnection H st with
  | (.ok (), st₁) =>
    match st₁.self.session with
    | some s =>
      let path := absolutize st₁.self.wrkdir path
      verdict (gone path) ((performShellCmdWithRc s (ShellCmd.existsPath path).text : Remote ScpFs σ _) H st₁).1
    | none => .broken
  | _ => .lost

/-- The answer to the `cd` of `change_dir`. -/
def cdProbe (dir : PathBuf) (st : St Ssh ScpFs σ) : Probe :=
  match st.self.session with
  | some s =>
    match ((performShellCmd s (ShellCmd.changeDir dir).text : Remote ScpFs σ _) H st).1 with
    | .ok output => if (trim output).head? = some '0' then .there else if gone dir then .gone else .unclear
    | .err _ => .lost
    | _ => .broken
  | none => .broken

/-- The answer to the `ls` of `stat`, where there is a parent to read its line in. -/
def lsProbe (path : PathBuf) (cmd : ShellCmd) (st : St Ssh ScpFs σ) : Probe :=
  match st.self.session with
  | some s =>
    match (performShellCmd s cmd.text : Remote ScpFs σ _) H st with
    | (.ok line, st') =>
      match parent path with
      | none => .there
      | some parent =>
        match parseLsOutput L (H.reply .utcYear st'.env).1 parent (trim line) with
        | .ok _ => .there
        | _ => if gone path then .gone else .unclear
    | (.err _, _) => .lost
    | _ => .broken
  | none => .broken

/-- The exit code of a command is not 0, or cannot be had. -/
def CommandFails (cmd : ShellCmd) (st : St Ssh ScpFs σ) : Prop :=
  ∃ s, st.self.session = some s ∧
    ((∃ rc out, ((performShellCmdWithRc s cmd.text : Remote ScpFs σ _) H st).1 = .ok (rc, out) ∧ rc ≠ 0) ∨
      ∃ e, ((performShellCmdWithRc s cmd.text : Remote ScpFs σ _) H st).1 = .err e)

end

section
variable {σ : Type} (gone : PathBuf → Bool) {H : Handler Ssh σ}

/-- The gate either lets a session through or says that there is no connection. -/
theorem checkConnection_cases (H : Handler Ssh σ) (st : St Ssh ScpFs σ) :
    (∃ s st₁, checkConnection H st = (.ok (), st₁) ∧ st₁.self = st.self ∧ st.self.session = some s) ∨
      ∃ st₁, checkConnection H st = (.err (.new .notConnected), st₁) := by
  have hself := checkConnection_self (H := H) st
  unfold checkConnection isConnected at hself ⊢
  rw [bind_run, bind_ok self_run] at hself ⊢
  cases hs : st.self.session with
  | none => exact Or.inr ⟨st, rfl⟩
  | some s =>
    rw [hs] at hself
    cases ha : (H.reply (.authenticated s) st.env).1 with
    | true =>
      refine Or.inl ⟨s, { st with
        env := (H.reply (.authenticated s) st.env).2, log := st.log ++ [⟨.authenticated s, true⟩] }, ?_, rfl, rfl⟩
      simp only [ask, call, ha]
      rfl
    | false =>
      refine Or.inr ⟨{ st with
        env := (H.reply (.authenticated s) st.env).2, log := st.log ++ [⟨.authenticated s, false⟩] }, ?_⟩
      simp only [ask, call, ha]
      rfl

/-! ### The existence test -/

theorem runTest_tells {c : ShellCmd} {s : SshSession} {st : St Ssh ScpFs σ} (hs : st.self.session = some s) (g : Bool) :
    Tells (verdict g ((performShellCmdWithRc s c.text : Remote ScpFs σ _) H st).1) (runTest c H st).1 := by
  unfold runTest
  rw [bind_ok self_run, hs, bind_ok (unwrap_run s), bind_run]
  unfold attempt
  cases hr : (performShellCmdWithRc s c.text : Remote ScpFs σ _) H st with
  | mk o st' =>
    cases o with
    | ok p =>
      obtain ⟨rc, out⟩ := p
      show Tells (if rc = 0 then .there else if rc = 1 ∧ g = true then .gone else .unclear) (.ok (decide (rc = 0)))
      by_cases hrc : rc = 0
      · rw [if_pos hrc, decide_eq_true hrc]
        rfl
      · rw [if_neg hrc, decide_eq_false hrc]
        split <;> rfl
    | err e => exact ⟨_, rfl, by simp [isMissing, RemoteError.kind]⟩
    | panic q => exact Or.inl ⟨q, rfl⟩
    | spin => exact Or.inr rfl

theorem existsPath_tells (path : PathBuf) (st : St Ssh ScpFs σ) :
    Tells (probe gone H path st) (existsPath path H st).1 := by
  unfold probe existsPath
  rcases checkConnection_cases H st with ⟨s, st₁, hrun, hself, hs⟩ | ⟨st₁, hrun⟩
  · rw [bind_ok hrun, bind_ok self_run]
    simp only [hrun, hself, hs]
    exact runTest_tells (hself ▸ hs) _
  · rw [bind_err hrun]
    simp only [hrun]
    exact ⟨_, rfl, by simp [isMissing, RemoteError.kind]⟩

theorem existsOrFalse_tells (path : PathBuf) (st : St Ssh ScpFs σ) :
    TellsOrFalse (probe gone H path st) (existsOrFalse path H st).1 := by
  have h := existsPath_tells gone (H := H) path st
  unfold existsOrFalse
  rw [bind_run]
  unfold attempt
  cases hr : existsPath path H st with
  | mk o st' =>
    rw [hr] at h
    cases hp : probe gone H path st <;> rw [hp] at h
    · cases h; rfl
    · cases h; rfl
    · cases h; rfl
    · obtain ⟨e, he, _⟩ := h
      cases he
      rfl
    · rcases h with ⟨q, hq⟩ | hq
      · cases hq; exact Or.inl ⟨q, rfl⟩
      · cases hq; exact Or.inr rfl

/-! ### The shapes of the operations -/

/-- The probes behind the gate. -/
def atGate (H : Handler Ssh σ) (ps : St Ssh ScpFs σ → List Probe) (st : St Ssh ScpFs σ) : List Probe :=
  match checkConnection H st with
  | (.ok (), st₁) => ps st₁
  | _ => []

variable {α : Type}

theorem honest_gate {m : Remote ScpFs σ α} {ps : St Ssh ScpFs σ → List Probe} {C : St Ssh ScpFs σ → Prop}
    (h : ∀ st s, st.self.session = some s → (Honest (ps st) (Missing (m H st).1) (m H st).1 ↔ C st))
    (st : St Ssh ScpFs σ) :
    Honest (atGate H ps st)
        (Missing ((checkConnection >>= fun _ => m) H st).1) ((checkConnection >>= fun _ => m) H st).1 ↔
      ∀ st₁, checkConnection H st = (.ok (), st₁) → C st₁ := by
  unfold atGate
  rcases checkConnection_cases H st with ⟨s, st₁, hrun, hself, hs⟩ | ⟨st₁, hrun⟩
  · rw [bind_ok hrun]
    simp only [hrun, Prod.mk.injEq, true_and, forall_eq']
    exact h st₁ s (hself ▸ hs)
  · rw [bind_err hrun]
    simp only [hrun, Prod.mk.injEq, reduceCtorEq, false_and, false_imp_iff, implies_true, iff_true]
    exact honest_nil (by rintro ⟨e, he, hm⟩; cases he; simp [isMissing, RemoteError.kind] at hm)

theorem existsOrFalse_then (f : Bool → Remote ScpFs σ α) (path : PathBuf) (st : St Ssh ScpFs σ) :
    (∃ b, (existsOrFalse path H st).1 = .ok b ∧
        (existsOrFalse path >>= f) H st = f b H (existsOrFalse path H st).2) ∨
      (probe gone H path st = .broken ∧ ¬ OtherError ((existsOrFalse path >>= f) H st).1) := by
  have h := existsOrFalse_tells gone (H := H) path st
  rw [bind_run]
  cases hr : existsOrFalse path H st with
  | mk o st' =>
    rw [hr] at h
    cases o with
    | ok b => exact Or.inl ⟨b, rfl, rfl⟩
    | err e =>
      cases hp : probe gone H path st <;> rw [hp] at h <;> rcases h with ⟨_, h⟩ | h <;> cases h
    | panic q =>
      refine Or.inr ⟨?_, by rintro ⟨e, he, _⟩; cases he⟩
      cases hp : probe gone H path st <;> rw [hp] at h <;> first | rfl | cases h
    | spin =>
      refine Or.inr ⟨?_, by rintro ⟨e, he, _⟩; cases he⟩
      cases hp : probe gone H path st <;> rw [hp] at h <;> first | rfl | cases h

/-- What the answer says of the boolean. -/
theorem existsOrFalse_bool {path : PathBuf} {st : St Ssh ScpFs σ} {b : Bool}
    (hb : (existsOrFalse path H st).1 = .ok b) :
    (b = true ∧ probe gone H path st = .there) ∨
      (b = false ∧ (probe gone H path st = .gone ∨ probe gone H path st = .unclear ∨
        probe gone H path st = .lost)) := by
  have h := existsOrFalse_tells gone (H := H) path st
  rw [hb] at h
  cases hp : probe gone H path st <;> rw [hp] at h
  · exact Or.inl ⟨Out.ok.inj h, rfl⟩
  · exact Or.inr ⟨Out.ok.inj h, Or.inl rfl⟩
  · exact Or.inr ⟨Out.ok.inj h, Or.inr (Or.inl rfl)⟩
  · exact Or.inr ⟨Out.ok.inj h, Or.inr (Or.inr rfl)⟩
  · rcases h with ⟨q, h⟩ | h <;> cases h

/-- An operation that does nothing unless the path is there. -/
theorem honest_guarded {A : Remote ScpFs σ α} (hA : Avoids H isMissing A) (path : PathBuf) (st : St Ssh ScpFs σ) :
    Honest [probe gone H path st]
        (Missing ((do if ← existsOrFalse path then A else throw (.new .noSuchFileOrDirectory)) H st).1)
        ((do if ← existsOrFalse path then A else throw (.new .noSuchFileOrDirectory)) H st).1 ↔
      (probe gone H path st).Settled := by
  rcases existsOrFalse_then gone (H := H)
    (fun b => if b = true then A else throw (.new .noSuchFileOrDirectory)) path st with ⟨b, hb, hrun⟩ | ⟨hp, hno⟩
  · rw [hrun]
    rcases existsOrFalse_bool gone hb with ⟨rfl, hp⟩ | ⟨rfl, hp⟩
    · refine honest_iff_settled (fun _ => not_missing_of_avoids hA) fun hno => absurd (Or.inl hp) hno
    · refine honest_iff_settled (fun h => ?_) fun _ => ?_
      · rw [h] at hp; simp at hp
      · rintro ⟨e, he, hm⟩; cases he; exact hm rfl
  · refine honest_iff_settled (fun h => ?_) fun _ => hno
    rw [hp] at h; cases h

/-- The same behind the gate, for a path that is given. -/
theorem guarded_honest {path : PathBuf} {m : Remote ScpFs σ α} {A : ScpFs → Remote ScpFs σ α}
    (hm : m = do
      checkConnection
      let fs ← self
      if ← existsOrFalse (absolutize fs.wrkdir path) then A fs else throw (.new .noSuchFileOrDirectory))
    (hA : ∀ fs, Avoids H isMissing (A fs)) (st : St Ssh ScpFs σ) :
    Honest (atGate H (fun st₁ => [probe gone H (absolutize st₁.self.wrkdir path) st₁]) st)
      (Missing (m H st).1) (m H st).1 ↔
      ∀ st₁, checkConnection H st = (.ok (), st₁) → (probe gone H (absolutize st₁.self.wrkdir path) st₁).Settled := by
  subst hm
  refine honest_gate (fun st _ _ => ?_) st
  rw [bind_ok self_run]
  exact honest_guarded gone (hA _) _ st

theorem runRc_avoids {c : ShellCmd} {bad : RemoteError} {kind : RemoteErrorType} (hbad : ¬ isMissing bad)
    (hkind : kind ≠ .noSuchFileOrDirectory) : Avoids H isMissing (runRc c bad kind) := by
  refine .self fun fs => .bind (.unwrap _) fun s => .bind (.attempt _) fun r => ?_
  cases r with
  | ok p => exact .ite (.pure ()) (.throw hbad)
  | error e => exact .throw hkind

/-- A command fails with an error of its own when it fails. -/
theorem runRc_other_iff {c : ShellCmd} {bad : RemoteError} {kind : RemoteErrorType} (hbad : ¬ isMissing bad)
    (hkind : kind ≠ .noSuchFileOrDirectory) {s : SshSession} {st : St Ssh ScpFs σ} (hs : st.self.session = some s) :
    OtherError (runRc c bad kind H st).1 ↔ CommandFails H c st := by
  have hfails : CommandFails H c st ↔
      ((∃ rc out, ((performShellCmdWithRc s c.text : Remote ScpFs σ _) H st).1 = .ok (rc, out) ∧ rc ≠ 0) ∨
        ∃ e, ((performShellCmdWithRc s c.text : Remote ScpFs σ _) H st).1 = .err e) := by
    unfold CommandFails
    rw [hs]
    simp only [Option.some.injEq, exists_eq_left']
  rw [hfails]
  unfold runRc
  rw [bind_ok self_run, hs, bind_ok (unwrap_run s), bind_run]
  unfold attempt
  cases hr : (performShellCmdWithRc s c.text : Remote ScpFs σ _) H st with
  | mk o st' =>
    cases o with
    | ok p =>
      obtain ⟨rc, out⟩ := p
      by_cases hrc : rc = 0
      · subst hrc
        constructor
        · rintro ⟨e, he, _⟩; cases he
        · rintro (⟨rc, out', h, hne⟩ | ⟨e, he⟩)
          · cases h; exact absurd rfl hne
          · cases he
      · refine iff_of_true ⟨bad, ?_, hbad⟩ (Or.inl ⟨rc, out, rfl, hrc⟩)
        show ((if rc = 0 then pure () else throw bad : Remote ScpFs σ Unit) H st').1 = .err bad
        rw [if_neg hrc]
        rfl
    | err e => exact iff_of_true ⟨_, rfl, hkind⟩ (Or.inr ⟨e, rfl⟩)
    | panic q =>
      refine iff_of_false ?_ ?_
      · rintro ⟨e, he, _⟩; cases he
      · rintro (⟨_, _, h, _⟩ | ⟨_, h⟩) <;> cases h
    | spin =>
      refine iff_of_false ?_ ?_
      · rintro ⟨e, he, _⟩; cases he
      · rintro (⟨_, _, h, _⟩ | ⟨_, h⟩) <;> cases h

/-- A command that is run unless the path is there, also when that is not known. -/
theorem honest_unless (c : ShellCmd) {present : RemoteErrorType} (hpresent : present ≠ .noSuchFileOrDirectory)
    (path : PathBuf) {s : SshSession} {st : St Ssh ScpFs σ} (hs : st.self.session = some s) :
    (∀ p ∈ [probe gone H path st], ¬ p.Settled →
        OtherError ((do
          if ← existsOrFalse path then throw (.new present)
          else runRc c (.new .fileCreateDenied) .protocolError) H st).1) ∧
      ¬ Missing ((do
        if ← existsOrFalse path then throw (.new present)
        else runRc c (.new .fileCreateDenied) .protocolError) H st).1 ↔
    (probe gone H path st).Behind (CommandFails H c (existsOrFalse path H st).2) := by
  have hbad : ¬ isMissing (.new .fileCreateDenied) := by simp [isMissing, RemoteError.kind]
  have havoid : Avoids H isMissing (do
      if ← existsOrFalse path then throw (.new present)
      else runRc c (.new .fileCreateDenied) .protocolError) :=
    .bind (.bind (.attempt _) fun r => by cases r <;> exact .pure _) fun b =>
      .ite (.throw hpresent) (runRc_avoids hbad (by simp))
  simp only [List.mem_singleton, forall_eq, not_missing_of_avoids havoid, not_false_eq_true, and_true]
  rcases existsOrFalse_then gone (H := H)
    (fun b => if b = true then throw (.new present) else runRc c (.new .fileCreateDenied) .protocolError)
    path st with ⟨b, hb, hrun⟩ | ⟨hp, hno⟩
  · have hs' : (existsOrFalse path H st).2.self.session = some s := by rw [existsOrFalse_self]; exact hs
    rw [hrun]
    rcases existsOrFalse_bool gone hb with ⟨rfl, hp⟩ | ⟨rfl, hp⟩
    · exact iff_of_true (fun hno => absurd (Or.inl hp) hno) (Or.inl (Or.inl hp))
    · have hother := runRc_other_iff (H := H) (c := c) hbad
        (show RemoteErrorType.protocolError ≠ .noSuchFileOrDirectory by simp) hs'
      rcases hp with hp | hp
      · exact iff_of_true (fun hno => absurd (Or.inr hp) hno) (Or.inl (Or.inr hp))
      · have hno : ¬ (probe gone H path st).Settled := by rcases hp with hp | hp <;> simp [hp, Probe.Settled]
        constructor
        · intro h
          exact Or.inr ⟨hp, hother.1 (h hno)⟩
        · rintro (h | ⟨_, h⟩)
          · exact absurd h hno
          · exact fun _ => hother.2 h
  · have hunsettled : ¬ (probe gone H path st).Settled := by simp [hp, Probe.Settled]
    refine iff_of_false (fun h => hno (h hunsettled)) ?_
    rintro (h | ⟨h | h, _⟩)
    · exact hunsettled h
    · rw [hp] at h; cases h
    · rw [hp] at h; cases h

/-! ### `change_dir` and `stat` -/

theorem changeDir_honest (dir : PathBuf) (st : St Ssh ScpFs σ) :
    Honest (atGate H (fun st₁ => [cdProbe gone H (absolutize st₁.self.wrkdir dir) st₁]) st)
        (Missing (changeDir dir H st).1) (changeDir dir H st).1 ↔
      ∀ st₁, checkConnection H st = (.ok (), st₁) →
        cdProbe gone H (absolutize st₁.self.wrkdir dir) st₁ ≠ .unclear ∧
          cdProbe gone H (absolutize st₁.self.wrkdir dir) st₁ ≠ .broken := by
  unfold changeDir
  refine honest_gate (fun st s hs => ?_) st
  unfold cdProbe
  rw [bind_ok self_run, bind_ok self_run, hs, bind_ok (unwrap_run s), bind_run]
  unfold attempt
  dsimp only
  cases hr : (performShellCmd s (ShellCmd.changeDir (absolutize st.self.wrkdir dir)).text : Remote ScpFs σ _) H st with
  | mk o st' =>
    cases o with
    | ok output =>
      dsimp only
      by_cases h0 : (trim output).head? = some '0'
      · rw [if_pos h0, if_pos h0]
        refine iff_of_true (honest_there fun h => ?_) (by simp)
        exact not_missing_of_avoids (.bind (.ofOut fun e he => by cases hsl : sliceFrom (trim output) 1 <;>
          rw [hsl] at he <;> cases he)
          fun rest => .bind (.modifySelf _) fun _ => .self fun fs => .pure _) h
      · rw [if_neg h0, if_neg h0]
        refine honest_iff_clear (fun h => ?_) (fun _ => ?_) (fun h => ?_) fun h => ?_
        · split at h <;> cases h
        · rintro ⟨e, he, hm⟩; cases he; exact hm rfl
        · split at h <;> cases h
        · split at h <;> cases h
    | err e => exact iff_of_true (honest_other ⟨_, rfl, by simp [isMissing, RemoteError.kind]⟩) (by simp)
    | panic q => exact iff_of_false (not_honest_broken (by rintro ⟨e, he, _⟩; cases he)) (by simp)
    | spin => exact iff_of_false (not_honest_broken (by rintro ⟨e, he, _⟩; cases he)) (by simp)

theorem isDirectory_self {st : St Ssh ScpFs σ} (hs : st.self.session.isSome = true) (path : PathBuf) :
    (isDirectory path H st).2.self = st.self :=
  self_of_built (isDirectory_built (ρ := Refused) (υ := True) (Handles.covers _) hs path)

/-- The answer to the `test -d` of `stat`, or to its `ls`. -/
def statProbe (L : Libs) (gone : PathBuf → Bool) (H : Handler Ssh σ) (path : PathBuf) (st : St Ssh ScpFs σ) : Probe :=
  match isDirectory path H st with
  | (.ok b, st₁) => lsProbe L gone H path (if b then .statDir path else .statFile path) st₁
  | (.err _, _) => .lost
  | _ => .broken

theorem isDirectory_err {path : PathBuf} {st st' : St Ssh ScpFs σ} {e : RemoteError}
    (h : isDirectory path H st = (.err e, st')) : ¬ isMissing e := by
  have havoid : Avoids H isMissing (isDirectory path) := by
    refine .self fun fs => .self fun fs => .bind (.unwrap _) fun s => .bind (.attempt _) fun r => ?_
    cases r with
    | ok p => exact .pure _
    | error e => exact .throw (by simp [isMissing, RemoteError.kind])
  exact havoid st e (by rw [h])

theorem stat_honest (L : Libs) (path : PathBuf) (st : St Ssh ScpFs σ) :
    Honest (atGate H (fun st₁ => [statProbe L gone H (absolutize st₁.self.wrkdir path) st₁]) st)
        (Missing (stat L path H st).1) (stat L path H st).1 ↔
      ∀ st₁, checkConnection H st = (.ok (), st₁) →
        statProbe L gone H (absolutize st₁.self.wrkdir path) st₁ ≠ .unclear ∧
          statProbe L gone H (absolutize st₁.self.wrkdir path) st₁ ≠ .broken := by
  unfold stat
  refine honest_gate (fun st s hs => ?_) st
  rw [bind_ok self_run]
  unfold statProbe
  generalize absolutize st.self.wrkdir path = p
  have hself := isDirectory_self (H := H) (by rw [hs]; rfl) p
  cases hd : isDirectory p H st with
  | mk o st₁ =>
    rw [hd] at hself
    cases o with
    | err e =>
      rw [bind_err hd]
      exact iff_of_true (honest_other ⟨e, rfl, isDirectory_err hd⟩) (by simp)
    | panic q => rw [bind_run, hd]; exact iff_of_false (not_honest_broken (by rintro ⟨e, he, _⟩; cases he)) (by simp)
    | spin => rw [bind_run, hd]; exact iff_of_false (not_honest_broken (by rintro ⟨e, he, _⟩; cases he)) (by simp)
    | ok b =>
      rw [bind_ok hd]
      unfold lsProbe
      have hs₁ : st₁.self.session = some s := hself ▸ hs
      dsimp only
      generalize (if b = true then ShellCmd.statDir p else ShellCmd.statFile p) = cmd
      rw [bind_ok self_run, hs₁, bind_ok (unwrap_run s), bind_run]
      unfold attempt
      dsimp only
      cases hr : (performShellCmd s cmd.text : Remote ScpFs σ _) H st₁ with
      | mk o st₂ =>
        cases o with
        | err e => exact iff_of_true (honest_other ⟨_, rfl, by simp [isMissing, RemoteError.kind]⟩) (by simp)
        | panic q => exact iff_of_false (not_honest_broken (by rintro ⟨e, he, _⟩; cases he)) (by simp)
        | spin => exact iff_of_false (not_honest_broken (by rintro ⟨e, he, _⟩; cases he)) (by simp)
        | ok line =>
          dsimp only
          cases parent p with
          | none => exact iff_of_true (honest_other ⟨_, rfl, by simp [isMissing, RemoteError.kind]⟩) (by simp)
          | some dir =>
            rcases parseLsOutput_cases L (H.reply .utcYear st₂.env).1 dir (trim line) with ⟨f, hf⟩ | hf
            · obtain ⟨st₃, hline⟩ := parseLine_ok hf
              dsimp only
              rw [bind_ok hline, hf]
              exact iff_of_true (honest_there (by rintro ⟨e, he, _⟩; cases he)) (by simp)
            · obtain ⟨st₃, hline⟩ := parseLine_err hf
              dsimp only
              rw [bind_ok hline, hf]
              refine honest_iff_clear (fun h => ?_) (fun _ => ?_) (fun h => ?_) fun h => ?_
              · dsimp only at h
                split at h <;> cases h
              · rintro ⟨e, he, hm⟩; cases he; exact hm rfl
              · dsimp only at h
                split at h <;> cases h
              · dsimp only at h
                split at h <;> cases h

/-! ### Two probes, and none -/

theorem existsPath_honest (path : PathBuf) (st : St Ssh ScpFs σ) :
    Honest [probe gone H path st] ((existsPath path H st).1 = .ok false ∨ Missing (existsPath path H st).1)
        (existsPath path H st).1 ↔
      probe gone H path st ≠ .unclear ∧ probe gone H path st ≠ .broken := by
  have h := existsPath_tells gone (H := H) path st
  cases hp : probe gone H path st <;> rw [hp] at h
  · rw [show (existsPath path H st).1 = .ok true from h]
    refine iff_of_true ⟨?_, fun p hp hno => absurd (Or.inl (List.mem_singleton.1 hp)) hno⟩ (by simp)
    rintro (hf | ⟨e, he, _⟩)
    · cases hf
    · cases he
  · exact iff_of_true ⟨fun _ => List.mem_cons_self, fun p hp hno =>
      absurd (Or.inr (List.mem_singleton.1 hp)) hno⟩ (by simp)
  · refine iff_of_false (fun hh => ?_) (by simp)
    have hmem := hh.absent (Or.inl h)
    simp at hmem
  · refine iff_of_true ⟨?_, fun _ _ _ => h⟩ (by simp)
    rintro (hf | hm)
    · obtain ⟨e, he, _⟩ := h
      rw [hf] at he
      cases he
    · exact absurd hm (not_missing_of_other h)
  · refine iff_of_false (fun hh => ?_) (by simp)
    obtain ⟨e, he, _⟩ := hh.reported .broken List.mem_cons_self (by simp [Probe.Settled])
    rcases h with ⟨q, h⟩ | h <;> rw [h] at he <;> cases he

theorem symlink_honest (path target : PathBuf) {s : SshSession} {st : St Ssh ScpFs σ} (hs : st.self.session = some s) :
    let m : Remote ScpFs σ Unit := do
      if ← existsOrFalse target then
        if ← existsOrFalse path then throw (.new .fileCreateDenied)
        else runRc (.symlink target path) (.new .fileCreateDenied) .protocolError
      else throw (.new .noSuchFileOrDirectory)
    let st₁ := (existsOrFalse target H st).2
    Honest (probe gone H target st :: if probe gone H target st = .there then [probe gone H path st₁] else [])
        (Missing (m H st).1) (m H st).1 ↔
      (probe gone H target st).Settled ∧ (probe gone H target st = .there →
        (probe gone H path st₁).Behind (CommandFails H (.symlink target path) (existsOrFalse path H st₁).2)) := by
  intro m st₁
  have hs₁ : st₁.self.session = some s := by rw [existsOrFalse_self]; exact hs
  have hunless := honest_unless gone (H := H) (.symlink target path)
    (show RemoteErrorType.fileCreateDenied ≠ .noSuchFileOrDirectory by simp) path hs₁
  rcases existsOrFalse_then gone (H := H) (fun b => if b = true then (do
      if ← existsOrFalse path then throw (.new .fileCreateDenied)
      else runRc (.symlink target path) (.new .fileCreateDenied) .protocolError : Remote ScpFs σ Unit)
    else throw (.new .noSuchFileOrDirectory)) target st with ⟨b, hb, hrun⟩ | ⟨hp, hno⟩
  · have hrun : m H st = _ := hrun
    rw [hrun]
    rcases existsOrFalse_bool gone hb with ⟨rfl, hp⟩ | ⟨rfl, hp⟩
    · rw [hp, if_pos rfl, if_pos rfl, ← hunless]
      simp only [forall_const]
      constructor
      · rintro ⟨habsent, hreported⟩
        refine ⟨Or.inl rfl, fun p hp hno => hreported p (List.mem_cons_of_mem _ hp) hno, ?_⟩
        refine not_missing_of_avoids (.bind (.bind (.attempt _) fun r => by cases r <;> exact .pure _) fun b =>
          .ite (.throw ?_) (runRc_avoids ?_ ?_)) <;> simp [isMissing, RemoteError.kind]
      · rintro ⟨-, hreported, hmiss⟩
        refine ⟨fun hm => absurd hm hmiss, fun p hp hno => ?_⟩
        rcases List.mem_cons.1 hp with rfl | hp
        · exact absurd (Or.inl rfl) hno
        · exact hreported p hp hno
    · have hne : probe gone H target st ≠ .there := by rcases hp with hp | hp | hp <;> simp [hp]
      rw [if_neg hne]
      have hiff : Honest [probe gone H target st] (Missing (α := Unit) (.err (.new .noSuchFileOrDirectory)))
          (.err (.new .noSuchFileOrDirectory)) ↔ (probe gone H target st).Settled :=
        honest_iff_settled (fun h => absurd h hne) fun _ => by rintro ⟨e, he, hm⟩; cases he; exact hm rfl
      exact hiff.trans ⟨fun h => ⟨h, fun h' => absurd h' hne⟩, fun h => h.1⟩
  · rw [hp]
    refine iff_of_false (fun hh => hno (hh.reported .broken List.mem_cons_self (by simp [Probe.Settled]))) ?_
    rintro ⟨h | h, _⟩ <;> cases h

theorem listLines_avoids (L : Libs) (path : PathBuf) (ls : List Str) : Avoids H isMissing (listLines L path ls) := by
  induction ls with
  | nil => exact .pure _
  | cons line rest ih =>
    refine .bind (.bind (.call _) fun year => .attempt _) fun r => ?_
    cases r with
    | ok entry => exact .bind ih fun _ => .pure _
    | error _ => exact ih

/-! ### All operations -/

variable (L : Libs) (H)

/-- What an operation that is let through makes the server say of its paths. -/
def probesAt : ScpOp → St Ssh ScpFs σ → List Probe
  | .changeDir dir, st => [cdProbe gone H (absolutize st.self.wrkdir dir) st]
  | .stat path, st => [statProbe L gone H (absolutize st.self.wrkdir path) st]
  | .listDir path, st | .setstat path _, st | .removeFile path, st | .removeDir path, st | .removeDirAll path, st
  | .copy path _, st | .mov path _, st | .openRead path, st | .createDir path _, st =>
    [probe gone H (absolutize st.self.wrkdir path) st]
  | .symlink path target, st =>
    probe gone H target st ::
      if probe gone H target st = .there then
        [probe gone H (absolutize st.self.wrkdir path) (existsOrFalse target H st).2]
      else []
  | _, _ => []

/-- The condition for an operation that is let through. -/
def ClearAt : ScpOp → St Ssh ScpFs σ → Prop
  | .changeDir dir, st =>
    cdProbe gone H (absolutize st.self.wrkdir dir) st ≠ .unclear ∧
      cdProbe gone H (absolutize st.self.wrkdir dir) st ≠ .broken
  | .stat path, st =>
    statProbe L gone H (absolutize st.self.wrkdir path) st ≠ .unclear ∧
      statProbe L gone H (absolutize st.self.wrkdir path) st ≠ .broken
  | .listDir path, st | .setstat path _, st | .removeFile path, st | .removeDir path, st | .removeDirAll path, st
  | .copy path _, st | .mov path _, st | .openRead path, st =>
    (probe gone H (absolutize st.self.wrkdir path) st).Settled
  | .createDir path mode, st =>
    let path := absolutize st.self.wrkdir path
    (probe gone H path st).Behind (CommandFails H (.createDir mode.toU32 path) (existsOrFalse path H st).2)
  | .symlink path target, st =>
    let path := absolutize st.self.wrkdir path
    let st₁ := (existsOrFalse target H st).2
    (probe gone H target st).Settled ∧ (probe gone H target st = .there →
      (probe gone H path st₁).Behind (CommandFails H (.symlink target path) (existsOrFalse path H st₁).2))
  | _, _ => True

def probes (op : ScpOp) (st : St Ssh ScpFs σ) : List Probe :=
  match op with
  | .existsPath path => [probe gone H path st]
  | op => atGate H (probesAt gone H L op) st

def Clear (op : ScpOp) (st : St Ssh ScpFs σ) : Prop :=
  match op with
  | .existsPath path => probe gone H path st ≠ .unclear ∧ probe gone H path st ≠ .broken
  | op => ∀ st₁, checkConnection H st = (.ok (), st₁) → ClearAt gone H L op st₁

/-- The outcome calls the path missing; for `exists` that is also `Ok(false)`. -/
def missing (op : ScpOp) (st : St Ssh ScpFs σ) : Prop :=
  match op with
  | .existsPath path => (existsPath path H st).1 = .ok false ∨ Missing (existsPath path H st).1
  | op => Missing (op.run L H st).1

def TakesPath : ScpOp → Prop
  | .connect | .disconnect | .isConnected | .pwd | .exec _ => False
  | _ => True

variable {L H}

theorem run_honest_iff (op : ScpOp) (hop : TakesPath op) (st : St Ssh ScpFs σ) :
    Honest (probes gone H L op st) (missing H L op st) (op.run L H st).1 ↔ Clear gone H L op st := by
  have hcmd : ∀ {c : ShellCmd} {bad : RemoteErrorType}, bad ≠ .noSuchFileOrDirectory →
      Avoids H isMissing (runRc c (.new bad) .protocolError : Remote ScpFs σ Unit) := fun hbad =>
        runRc_avoids hbad (by simp)
  cases op with
  | connect => exact hop.elim
  | disconnect => exact hop.elim
  | isConnected => exact hop.elim
  | pwd => exact hop.elim
  | exec cmd => exact hop.elim
  | existsPath path => exact honest_dropValue.trans (existsPath_honest gone path st)
  | changeDir dir => exact honest_run_iff.trans (changeDir_honest gone dir st)
  | stat path => exact honest_run_iff.trans (stat_honest gone L path st)
  | listDir path =>
    refine honest_run_iff.trans (guarded_honest gone (m := listDir L path) rfl (fun fs => ?_) st)
    refine .self fun fs => .bind (.unwrap _) fun s => .bind (.attempt _) fun r => ?_
    cases r with
    | ok output => exact listLines_avoids L _ _
    | error e => exact .throw (by simp [isMissing, RemoteError.kind])
  | setstat path m =>
    have htouch : ∀ t, Avoids H isMissing (touchTime L t : Remote ScpFs σ _) := fun t => .ofOut fun e he => by
      unfold fmtTimeUtc at he
      split at he <;> cases he
    refine guarded_honest gone (m := setstat L path m) rfl (fun fs => ?_) st
    exact .bind (.ifSome fun mode => hcmd (by simp)) fun _ => .bind (.ifSome fun user => hcmd (by simp)) fun _ =>
      .bind (.ifSome fun t => .bind (htouch t) fun s => hcmd (by simp)) fun _ =>
        .ifSome fun t => .bind (htouch t) fun s => hcmd (by simp)
  | removeFile path => exact guarded_honest gone (m := removeFile path) rfl (fun fs => hcmd (by simp)) st
  | removeDir path => exact guarded_honest gone (m := removeDir path) rfl (fun fs => hcmd (by simp)) st
  | removeDirAll path => exact guarded_honest gone (m := removeDirAll path) rfl (fun fs => hcmd (by simp)) st
  | copy src dest =>
    refine guarded_honest gone (m := copy src dest) rfl (fun fs => ?_) st
    exact .self fun fs => runRc_avoids (by simp [isMissing, RemoteError.kind]) (by simp)
  | mov src dest =>
    refine guarded_honest gone (m := mov src dest) rfl (fun fs => ?_) st
    exact .self fun fs => runRc_avoids (by simp [isMissing, RemoteError.kind]) (by simp)
  | openRead path =>
    refine honest_run_iff.trans (guarded_honest gone (m := openRead path) rfl (fun fs => ?_) st)
    refine .self fun fs => .bind (.unwrap _) fun s => .bind (.call _) fun _ => .self fun fs =>
      .bind (.unwrap _) fun s =>
      .bind (.call _) fun r => ?_
    cases r with
    | ok channel => exact .pure channel
    | error err => exact .throw (by simp [isMissing, RemoteError.kind])
  | createDir path mode =>
    show Honest (atGate H (probesAt gone H L (.createDir path mode)) st) (Missing (createDir path mode H st).1)
      (createDir path mode H st).1 ↔
      ∀ st₁, checkConnection H st = (.ok (), st₁) → ClearAt gone H L (.createDir path mode) st₁
    unfold createDir
    refine honest_gate (fun st s hs => ?_) st
    rw [bind_ok self_run, ClearAt, ← honest_unless gone _
      (show RemoteErrorType.directoryAlreadyExists ≠ .noSuchFileOrDirectory by simp)
      (absolutize st.self.wrkdir path) hs]
    constructor
    · exact fun h => ⟨h.reported, not_missing_of_avoids
        (.bind (.bind (.attempt _) fun r => by cases r <;> exact .pure _)
        fun b => .ite (.throw (by simp [isMissing, RemoteError.kind])) (hcmd (by simp)))⟩
    · rintro ⟨h, hm⟩
      exact ⟨fun h' => absurd h' hm, h⟩
  | symlink path target =>
    show Honest (atGate H (probesAt gone H L (.symlink path target)) st) (Missing (symlink path target H st).1)
      (symlink path target H st).1 ↔
      ∀ st₁, checkConnection H st = (.ok (), st₁) → ClearAt gone H L (.symlink path target) st₁
    unfold symlink
    refine honest_gate (fun st s hs => ?_) st
    rw [bind_ok self_run]
    exact symlink_honest gone (absolutize st.self.wrkdir path) target hs
  | append path m =>
    refine iff_of_true ?_ fun _ _ => trivial
    have hps : probes gone H L (.append path m) st = [] := by
      unfold probes atGate
      dsimp only
      split <;> rfl
    rw [hps]
    exact honest_run_iff.2 (honest_nil (not_missing_of_avoids (.throw (by simp [isMissing, RemoteError.kind]))))
  | create path m =>
    refine iff_of_true ?_ fun _ _ => trivial
    have hps : probes gone H L (.create path m) st = [] := by
      unfold probes atGate
      dsimp only
      split <;> rfl
    have hgate : Avoids H isMissing (checkConnection : Remote ScpFs σ _) :=
      .bind (.self fun fs => by cases fs.session <;> first | exact .call _ | exact .pure _) fun b =>
        .ite (.pure ()) (.throw (by simp [isMissing, RemoteError.kind]))
    rw [hps]
    refine honest_run_iff.2 (honest_nil (not_missing_of_avoids (.bind hgate fun _ => .self fun fs => .self fun fs =>
      .bind (.unwrap _) fun s => .bind (.call _) fun _ => .self fun fs => .bind (.unwrap _) fun s =>
        .bind (.call _) fun r => ?_)))
    cases r with
    | ok channel => exact .pure channel
    | error err => exact .throw (by simp [isMissing, RemoteError.kind])

end

end ScpFs

end RemotefsSsh
