import RemotefsSsh.Lib.TreeChanges
import RemotefsSsh.Storage
import RemotefsSsh.Symlink
import RemotefsSsh.SetstatTimes

/-!
# Making directories and taking entries away (ssh/scp.rs:366-491, ssh/sftp.rs:268-326)

`ScpFs` tests the path and runs `mkdir -m`, `rm -f`, `rmdir` or `rm -rf`, `SftpFs` sends MKDIR, REMOVE or RMDIR. The
machine and the requests do what POSIX says (`ChangesTree`, `ServesChanges`): they change one entry, the one that the
path names, when they succeed; what fails, or loses its answer, has changed it or not, and an `rm -rf` that fails has
taken away a part.

So any run of these operations is a run of changes to the tree (`FileTree.Run`), one for each operation at most, and
acknowledged exactly when the operation returns (`scp_tree_refined`, `sftp_tree_refined`). Where the two servers grant
the same changes the clients agree, but for links that lead nowhere, which `ScpFs` does not find (`changes_agree`).
-/

namespace RemotefsSsh

open Utf8 UnixPath Effect Prog FileTree

/-- What a request about `p` has done, and whether it was acknowledged. -/
def Does {α : Type} (kind : ChangeKind) (t : Tree Str α) (p : PathBuf) (ok : Bool) (t' : Tree Str α) : Prop :=
  (ok = false ∧ t' = t) ∨ ∃ e n, EntryAt t (steps p) e n ∧ Change.Outcome t ⟨kind, e ++ [n]⟩ ok t'

namespace Does

variable {α : Type} {kind : ChangeKind} {t t' : Tree Str α} {p : PathBuf} {ok : Bool}

theorem nothing : Does kind t p false t := Or.inl ⟨rfl, rfl⟩

theorem lost (h : Does kind t p ok t') : Does kind t p false t' := by
  rcases h with ⟨-, h⟩ | ⟨e, n, hentry, h⟩
  · exact Or.inl ⟨rfl, h⟩
  · exact Or.inr ⟨e, n, hentry, h.lost⟩

end Does

/-- The commands that change one entry. -/
def ShellCmd.change? : ShellCmd → Option (ChangeKind × PathBuf)
  | .createDir _ p => some (.mkdir, p)
  | .removeFile p => some (.unlink, p)
  | .removeDir p => some (.rmdir, p)
  | .removeDirAll p => some (.prune, p)
  | _ => none

/-- A command with a status of 0 was acknowledged. `rm -f` is content when nothing is there. -/
structure ChangesTree {ω α : Type} (M : Sh.Machine ω) (files : ω → Tree Str α) : Prop where
  existsPath_silent : ∀ w p, (M.utility w M.home (ShellCmd.existsPath p).words).1 = []
  existsPath_same : ∀ w p, (M.utility w M.home (ShellCmd.existsPath p).words).2.2 = w
  existsPath : ∀ w p, isAbsolute p = true → (M.utility w M.home
    (ShellCmd.existsPath p).words).2.1 = 0 → Leads (files w) p
  silent : ∀ c x w, ShellCmd.change? c = some x → (M.utility w M.home c.words).1 = []
  changes : ∀ c kind p w, ShellCmd.change? c = some (kind, p) → isAbsolute p = true →
    Does kind (files w) p (decide ((M.utility w M.home c.words).2.1 = 0)) (files (M.utility w M.home c.words).2.2) ∨
      ((kind = .unlink ∨ kind = .prune) ∧ ¬ Leads (files w) p)

/-- A command whose answer is lost was run or was not. -/
structure Lossy {σ ω : Type} (M : Sh.Machine ω) (world : σ → ω) (H : Handler Ssh σ) : Prop extends Hosts M world H where
  lost : ∀ {κ : Type} (session : SshSession) (line : Str) (st st' : St Ssh κ σ) (s : Sh.Shell ω) (err : RemoteError),
    M.runLine line (world st.env) = some s → performShellCmd session line H st = (.err err, st') →
      world st'.env = world st.env ∨ world st'.env = s.world

/-- The requests on the same tree. -/
structure ServesChanges {σ α : Type} (files : σ → Tree Str α) (H : Handler Ssh σ) : Prop where
  idle : ∀ c env, Idle c → files (H.reply c env).2 = files env
  mkdir : ∀ f p mode env, isAbsolute p = true →
    Does .mkdir (files env) p (H.reply (.mkdir f p mode) env).1.isOk (files (H.reply (.mkdir f p mode) env).2)
  unlink : ∀ f p env, isAbsolute p = true →
    Does .unlink (files env) p (H.reply (.unlink f p) env).1.isOk (files (H.reply (.unlink f p) env).2)
  rmdir : ∀ f p env, isAbsolute p = true →
    Does .rmdir (files env) p (H.reply (.rmdir f p) env).1.isOk (files (H.reply (.rmdir f p) env).2)

/-! ## What a run asks for -/

/-- The path of an operation, and what it is to change there. -/
structure Ask where
  kind : Option ChangeKind
  path : PathBuf

/-- Asked one after another from `wd`, and told what is in the flags, the operations make these changes. -/
inductive TreeRun {α : Type} (wd : PathBuf) : Tree Str α → List (Ask × Bool) →
    List (Change Str × Bool) → Tree Str α → Prop
  | nil {t : Tree Str α} : TreeRun wd t [] [] t
  /-- One that asks for no change, or is refused. -/
  | idle {t t' : Tree Str α} {a : Ask} {ok : Bool} {asks : List (Ask × Bool)} {es : List (Change Str × Bool)} :
    a.kind = none ∨ ok = false → TreeRun wd t asks es t' → TreeRun wd t ((a, ok) :: asks) es t'
  | change {t t₁ t' : Tree Str α} {a : Ask} {kind : ChangeKind} {e : Place Str} {n : Str} {ok : Bool}
      {asks : List (Ask × Bool)} {es : List (Change Str × Bool)} :
    a.kind = some kind → EntryAt t (steps (absolutize wd a.path)) e n → Change.Outcome t ⟨kind, e ++ [n]⟩ ok t₁ →
      TreeRun wd t₁ asks es t' → TreeRun wd t ((a, ok) :: asks) ((⟨kind, e ++ [n]⟩, ok) :: es) t'

theorem TreeRun.run {α : Type} {wd : PathBuf} {t t' : Tree Str α} {asks : List (Ask × Bool)}
    {es : List (Change Str × Bool)} (h : TreeRun wd t asks es t') : FileTree.Run t es t' := by
  induction h with
  | nil => rfl
  | idle _ _ ih => exact ih
  | change _ _ hstep _ ih => exact ⟨_, hstep, ih⟩

/-- What the caller is told by each operation of a run. -/
def told {κ σ ι : Type} (H : Handler Ssh σ) (run : ι → Remote κ σ Unit) (ask : ι → Ask) :
    List ι → St Ssh κ σ → List (Ask × Bool)
  | [], _ => []
  | op :: ops, st => (ask op, (run op H st).1.isOk) :: told H run ask ops (run op H st).2

/-- What an operation that asks for `a` may do to the tree `t`. -/
def Ask.Does {α : Type} (wd : PathBuf) (a : Ask) (t : Tree Str α) (ok : Bool) (t' : Tree Str α) : Prop :=
  match a.kind with
  | none => t' = t
  | some kind => RemotefsSsh.Does kind t (absolutize wd a.path) ok t'

theorem Ask.Does.run {α : Type} {wd : PathBuf} {a : Ask} {t t₁ t' : Tree Str α} {ok : Bool} {asks : List (Ask × Bool)}
    {es : List (Change Str × Bool)} (h : a.Does wd t ok t₁) (hrest : TreeRun wd t₁ asks es t') :
    ∃ es', TreeRun wd t ((a, ok) :: asks) es' t' := by
  unfold Ask.Does at h
  split at h
  · rename_i hkind
    exact ⟨es, .idle (Or.inl hkind) (by rwa [h] at hrest)⟩
  · rename_i kind hkind
    rcases h with ⟨hok, h⟩ | ⟨e, n, hentry, h⟩
    · exact ⟨es, .idle (Or.inr hok) (by rwa [h] at hrest)⟩
    · exact ⟨_, .change hkind hentry h hrest⟩

/-! ## The SCP client -/

theorem performShellCmd_err {κ σ : Type} {H : Handler Ssh σ} {session : SshSession} {cmd : Str} {st st' : St Ssh κ σ}
    {o : Out RemoteError Str} (h : performShellCmd session cmd H st = (o, st'))
    (ho : ∀ a, o ≠ .ok a) : ∃ e, o = .err e := by
  have hstops : Triple H (fun _ => True) (performShellCmd session cmd : Remote κ σ _) (fun _ _ => True)
      fun e _ => e ≠ none := by
    refine .bind (.call (Q := fun _ _ => True) fun _ _ => trivial) fun r => ?_
    cases r with
    | error e => exact .throw fun _ _ => by simp
    | ok ch =>
      refine .bind (.call (Q := fun _ _ => True) fun _ _ => trivial) fun r => ?_
      cases r with
      | error e => exact .throw fun _ _ => by simp
      | ok _ =>
        refine .bind (.call (Q := fun _ _ => True) fun _ _ => trivial) fun r => ?_
        cases r with
        | error e => exact .throw fun _ _ => by simp
        | ok _ => exact .bind (.call (Q := fun _ _ => True) fun _ _ => trivial) fun _ => .pure fun _ _ => trivial
  have hne := hstops.stops trivial h ho
  cases o with
  | err e => exact ⟨e, rfl⟩
  | ok a => exact absurd rfl (ho a)
  | panic p => exact absurd rfl hne
  | spin => exact absurd rfl hne

/-- The record is `k`, and the world is `w`. -/
structure Here {κ σ ω : Type} (world : σ → ω) (k : κ) (w : ω) (st : St Ssh κ σ) : Prop where
  self : st.self = k
  world : world st.env = w

section
variable {κ σ ω α : Type} {M : Sh.Machine ω} {world : σ → ω} {H : Handler Ssh σ} {k : κ} {w : ω}

theorem here_self {f : κ → Remote κ σ α} {Q : α → St Ssh κ σ → Prop} {E : Option RemoteError → St Ssh κ σ → Prop}
    (h : Triple H (Here world k w) (f k) Q E) : Triple H (Here world k w) (Prog.self >>= f) Q E :=
  .self fun k' => Triple.pre (.given (p := k' = k) fun hk => hk ▸ h) fun _ h => ⟨h.2.symm.trans h.1.self, h.1⟩

theorem here_looks (hH : Hosts M world H) {c : SshCall} (hc : Looks c) {E : Option RemoteError → St Ssh κ σ → Prop} :
    Triple H (Here world k w) (ask c : Remote κ σ _) (fun _ => Here world k w) E :=
  .call fun st h => ⟨h.self, (hH.looks c st.env hc).trans h.world⟩

/-- A command that is run for its exit code leaves what its utility leaves, or nothing was run. -/
theorem rc_here (hH : Lossy M world H) {c : ShellCmd} (hc : c.Calls M) (session : SshSession) :
    Triple H (Here world k w) (performShellCmdWithRc session c.text : Remote κ σ _)
      (fun r st => Here world k (M.utility w M.home c.words).2.2 st ∧ r.1 = (M.utility w M.home c.words).2.1.toUInt32)
      fun _ st => Here world k w st ∨ Here world k (M.utility w M.home c.words).2.2 st := by
  obtain ⟨s, hs, hout, hworld⟩ := hc.runLine w
  have hasks : ∀ st : St Ssh κ σ, (performShellCmd session c.line H st).2.self = st.self :=
    fun st => (performShellCmd_asks (p := fun _ => True) (along_any H true) session c).self_eq st
  unfold performShellCmdWithRc
  rw [ShellCmd.line_of_withRc hc.withRc]
  refine .bind (Q := fun out st => Here world k (M.utility w M.home c.words).2.2 st ∧
    out = framed [] (M.utility w M.home c.words).2.1.toUInt32)
      ⟨fun {st out st'} h hr => ?_, fun {st o st'} h hr ho => ?_⟩
      fun out => ?_
  · have hself := hasks st
    rw [hr] at hself
    obtain ⟨hreply, hworld'⟩ := hH.reply hc hr
    rw [h.world] at hreply hworld'
    exact ⟨⟨hself.trans h.self, hworld'⟩, hreply⟩
  · have hself := hasks st
    rw [hr] at hself
    obtain ⟨e, rfl⟩ := performShellCmd_err hr ho
    rcases hH.lost session c.line st st' s e (by rwa [h.world]) hr with hw | hw
    · exact Or.inl ⟨hself.trans h.self, hw.trans h.world⟩
    · exact Or.inr ⟨hself.trans h.self, hw.trans hworld⟩
  · refine ⟨fun {st r st'} h hr => ?_, fun {st o st'} h hr ho => ?_⟩
    · rw [h.2, ofOut_run, rcOfOutput_framed_blank blank_nil] at hr
      cases hr
      exact ⟨h.1, rfl⟩
    · rw [h.2, ofOut_run, rcOfOutput_framed_blank blank_nil] at hr
      cases hr
      exact absurd rfl (ho _)

/-- The same, with a failure that is looked at. -/
theorem attempt_here (hH : Lossy M world H) {c : ShellCmd} (hc : c.Calls M) (session : SshSession)
    {E : Option RemoteError → St Ssh κ σ → Prop}
    (hE : ∀ st, Here world k w st ∨ Here world k (M.utility w M.home c.words).2.2 st → E none st) :
    Triple H (Here world k w) (attempt (performShellCmdWithRc session c.text) : Remote κ σ (Except RemoteError _))
      (Answered
        (fun r st => Here world k (M.utility w M.home c.words).2.2 st ∧ r.1 = (M.utility w M.home c.words).2.1.toUInt32)
        fun _ st => Here world k w st ∨ Here world k (M.utility w M.home c.words).2.2 st) E :=
  .attempt (rc_here hH hc session) (fun _ _ h => h) hE

end

namespace ScpFs

section
variable {σ ω α : Type} {M : Sh.Machine ω} {world : σ → ω} {files : ω → Tree Str α}
    {H : Handler Ssh σ} {k : ScpFs} {w : ω}
  (hH : Lossy M world H)
include hH

theorem isConnected_here :
    Triple H (Here world k w) (isConnected : Remote ScpFs σ _) (fun _ => Here world k w) fun _ => Here world k w := by
  refine here_self ?_
  cases k.session with
  | some s => exact here_looks hH.toHosts (c := .authenticated s) trivial
  | none => exact .pure fun _ h => h

theorem checkConnection_here :
    Triple H (Here world k w) (checkConnection : Remote ScpFs σ _) (fun _ => Here world k w) fun _ => Here world k w :=
  .bind (isConnected_here hH) fun _ => .ite (fun _ => .pure fun _ h => h) fun _ => .throw fun _ h => h

/-- A command that succeeds exits with 0. -/
theorem runRc_here {c : ShellCmd} (hc : c.Calls M) (bad : RemoteError) (kind : RemoteErrorType) :
    Triple H (Here world k w) (runRc c bad kind : Remote ScpFs σ _)
      (fun _ st => Here world k (M.utility w M.home c.words).2.2 st ∧ (M.utility w M.home c.words).2.1 = 0)
      fun _ st => Here world k w st ∨ Here world k (M.utility w M.home c.words).2.2 st := by
  refine here_self (.unwrap (fun _ _ h => Or.inl h) fun session _ => ?_)
  refine .bind (attempt_here hH hc session fun _ h => h) fun r => ?_
  cases r with
  | error err => exact .throw fun _ h => h
  | ok r =>
    obtain ⟨rc, out⟩ := r
    refine .ite (fun hrc => .pure fun _ h => ⟨h.1, ?_⟩) fun _ => .throw fun _ h => Or.inr h.1
    exact toUInt32_eq_zero_iff.1 (h.2.symm.trans hrc)

variable (hM : ChangesTree M files)
include hM

omit hH in
theorem calls_test {p : PathBuf} (hp : Sh.Plain p) : (ShellCmd.existsPath p).Calls M :=
  ShellCmd.calls rfl trivial (ShellCmd.plain_one hp) fun w => hM.existsPath_silent w p

/-- The test changes nothing, and what it finds is there. -/
theorem runTest_here {p : PathBuf} (habs : isAbsolute p = true) (hp : Sh.Plain p) :
    Triple H (Here world k w) (runTest (.existsPath p) : Remote ScpFs σ _)
      (fun b st => Here world k w st ∧ (b = true → Leads (files w) p)) fun _ => Here world k w := by
  refine here_self (.unwrap (fun _ _ h => h) fun session _ => ?_)
  refine .bind (attempt_here hH (calls_test hM hp) session fun _ h => ?_) fun r => ?_
  · rw [hM.existsPath_same, or_self] at h
    exact h
  cases r with
  | error err =>
    refine .throw fun _ h => ?_
    rw [hM.existsPath_same] at h
    exact or_self_iff.1 h
  | ok r =>
    refine .pure fun _ h => ⟨?_, fun hb => ?_⟩
    · rw [hM.existsPath_same] at h
      exact h.1
    · refine hM.existsPath w p habs (toUInt32_eq_zero_iff.1 (h.2.symm.trans ?_))
      exact of_decide_eq_true hb

theorem existsPath_here {path : PathBuf} (hw : isAbsolute k.wrkdir = true) (hp : Sh.Plain (absolutize k.wrkdir path)) :
    Triple H (Here world k w) (existsPath path : Remote ScpFs σ _)
      (fun b st => Here world k w st ∧ (b = true → Leads (files w) (absolutize k.wrkdir path)))
        fun _ => Here world k w :=
  .bind (checkConnection_here hH) fun _ => here_self (runTest_here hH hM (isAbsolute_absolutize hw path) hp)

/-- The test in front of a change, which gets the absolute path. -/
theorem existsOrFalse_here {path : PathBuf} (hw : isAbsolute k.wrkdir = true)
    (hp : Sh.Plain (absolutize k.wrkdir path)) :
    Triple H (Here world k w) (existsOrFalse (absolutize k.wrkdir path) : Remote ScpFs σ _)
      (fun b st => Here world k w st ∧ (b = true → Leads (files w) (absolutize k.wrkdir path)))
        fun _ => Here world k w := by
  have habs := absolutize_absolutize (isAbsolute_absolutize hw path)
  have htest : Triple H (Here world k w) (existsPath (absolutize k.wrkdir path) : Remote ScpFs σ _) _ _ :=
    existsPath_here hH hM hw (by rwa [habs])
  rw [habs] at htest
  refine .bind (Q := Answered (fun b st => Here world k w st ∧ (b = true → Leads (files w) (absolutize k.wrkdir path)))
      fun _ => Here world k w) (.attempt htest (fun _ _ h => h) fun _ h => h) fun r => ?_
  cases r with
  | ok b => exact .pure fun _ h => h
  | error _ => exact .pure fun _ h => ⟨h, fun hb => by cases hb⟩

/-- A change that is made by a command. -/
theorem change_here {c : ShellCmd} {kind : ChangeKind} {p : PathBuf} (hc : c.Calls M)
    (hchange : c.change? = some (kind, p))
    (habs : isAbsolute p = true) (hthere : kind = .unlink ∨ kind = .prune → Leads (files w) p) (bad : RemoteError)
    (ekind : RemoteErrorType) :
    Triple H (Here world k w) (runRc c bad ekind : Remote ScpFs σ _)
      (fun _ st => st.self = k ∧ Does kind (files w) p true (files (world st.env)))
      fun _ st => st.self = k ∧ Does kind (files w) p false (files (world st.env)) := by
  have hdoes : Does kind (files w) p (decide ((M.utility w M.home c.words).2.1 = 0))
      (files (M.utility w M.home c.words).2.2) := by
    rcases hM.changes c kind p w hchange habs with h | ⟨hkind, hno⟩
    · exact h
    · exact absurd (hthere hkind) hno
  refine (runRc_here hH hc bad ekind).conseq (fun _ h => h) (fun _ st h => ⟨h.1.self, ?_⟩) fun _ st h => ?_
  · rw [h.2, decide_eq_true rfl] at hdoes
    rwa [h.1.world]
  · rcases h with h | h
    · refine ⟨h.self, ?_⟩
      rw [h.world]
      exact .nothing
    · refine ⟨h.self, ?_⟩
      rw [h.world]
      exact hdoes.lost

/-- The three removals. -/
theorem remove_here (cmd : PathBuf → ShellCmd) {kind : ChangeKind} {path : PathBuf} (hw : isAbsolute k.wrkdir = true)
    (hp : Sh.Plain (absolutize k.wrkdir path)) (hc : (cmd (absolutize k.wrkdir path)).Calls M)
    (hchange : (cmd (absolutize k.wrkdir path)).change? = some (kind, absolutize k.wrkdir path)) (bad : RemoteError) :
    Triple H (Here world k w) (do
      checkConnection
      let path := absolutize (← Prog.self).wrkdir path
      if ← existsOrFalse path then runRc (cmd path) bad .protocolError
      else Prog.throw (.new .noSuchFileOrDirectory) : Remote ScpFs σ Unit)
      (fun _ st => st.self = k ∧ Does kind (files w) (absolutize k.wrkdir path) true (files (world st.env)))
      fun _ st => st.self = k ∧ Does kind (files w) (absolutize k.wrkdir path) false (files (world st.env)) := by
  have hnothing : ∀ st : St Ssh ScpFs σ, Here world k w st →
      st.self = k ∧ Does kind (files w) (absolutize k.wrkdir path) false (files (world st.env)) := by
    intro st h
    refine ⟨h.self, ?_⟩
    rw [h.world]
    exact .nothing
  refine .bind ((checkConnection_here hH).conseq (fun _ h => h) (fun _ _ h => h) fun _ _ h => hnothing _ h) fun _ =>
    here_self ?_
  refine .bind ((existsOrFalse_here hH hM hw hp).conseq (fun _ h => h) (fun _ _ h => h) fun _ _ h =>
    hnothing _ h) fun b => ?_
  refine .ite (fun hb => ?_) fun _ => .throw fun _ h => hnothing _ h.1
  refine Triple.pre (.given (p := Leads (files w) (absolutize k.wrkdir path)) fun hthere => ?_) fun _ h => ⟨h.2 hb, h.1⟩
  exact change_here hH hM hc hchange (isAbsolute_absolutize hw path) (fun _ => hthere) bad _

theorem createDir_here {path : PathBuf} (mode : UnixPex) (hw : isAbsolute k.wrkdir = true)
    (hp : Sh.Plain (absolutize k.wrkdir path)) :
    Triple H (Here world k w) (createDir path mode : Remote ScpFs σ _)
      (fun _ st => st.self = k ∧ Does .mkdir (files w) (absolutize k.wrkdir path) true (files (world st.env)))
      fun _ st => st.self = k ∧ Does .mkdir (files w) (absolutize k.wrkdir path) false (files (world st.env)) := by
  have hnothing : ∀ st : St Ssh ScpFs σ, Here world k w st →
      st.self = k ∧ Does .mkdir (files w) (absolutize k.wrkdir path) false (files (world st.env)) := by
    intro st h
    refine ⟨h.self, ?_⟩
    rw [h.world]
    exact .nothing
  have hc : (ShellCmd.createDir mode.toU32 (absolutize k.wrkdir path)).Calls M :=
    ShellCmd.calls rfl trivial (ShellCmd.plain_one hp) fun w => hM.silent _ _ w rfl
  refine .bind ((checkConnection_here hH).conseq (fun _ h => h) (fun _ _ h => h) fun _ _ h => hnothing _ h) fun _ =>
    here_self ?_
  refine .bind ((existsOrFalse_here hH hM hw hp).conseq (fun _ h => h) (fun _ _ h => h) fun _ _ h =>
    hnothing _ h) fun b => ?_
  refine .ite (fun _ => .throw fun _ h => hnothing _ h.1) fun _ => ?_
  exact (change_here hH hM hc rfl (isAbsolute_absolutize hw path) (by simp) _ _).pre fun _ h => h.1

end

end ScpFs

/-- What an operation asks for, if it is one of those that look or change one entry. -/
def ScpOp.ask? : ScpOp → Option Ask
  | existsPath p => some ⟨none, p⟩
  | createDir p _ => some ⟨some .mkdir, p⟩
  | removeFile p => some ⟨some .unlink, p⟩
  | removeDir p => some ⟨some .rmdir, p⟩
  | removeDirAll p => some ⟨some .prune, p⟩
  | _ => none

def SftpOp.ask? : SftpOp → Option Ask
  | existsPath p => some ⟨none, p⟩
  | createDir p _ => some ⟨some .mkdir, p⟩
  | removeFile p => some ⟨some .unlink, p⟩
  | removeDir p => some ⟨some .rmdir, p⟩
  | _ => none

abbrev ScpTreeOp := { op : ScpOp // op.ask?.isSome }

abbrev SftpTreeOp := { op : SftpOp // op.ask?.isSome }

def ScpTreeOp.ask (op : ScpTreeOp) : Ask := op.1.ask?.get op.2

def SftpTreeOp.ask (op : SftpTreeOp) : Ask := op.1.ask?.get op.2

section
variable {κ σ ι α : Type} {H : Handler Ssh σ} {run : ι → Remote κ σ Unit} {ask : ι → Ask} {T : σ → Tree Str α}

/-- **Operations that each do to the tree what they ask for make a run of changes.** -/
theorem told_run {k : κ} {wd : PathBuf} {ops : List ι} (hops : ∀ op ∈ ops, ∀ st, st.self = k →
      (run op H st).2.self = k ∧ (ask op).Does wd (T st.env) (run op H st).1.isOk (T (run op H st).2.env))
    {st : St Ssh κ σ} (hk : st.self = k) :
    ∃ es, TreeRun wd (T st.env) (told H run ask ops st) es (T (runAll H run ops st).env) := by
  induction ops generalizing st with
  | nil => exact ⟨[], .nil⟩
  | cons op ops ih =>
    obtain ⟨hself, hdoes⟩ := hops op List.mem_cons_self st hk
    obtain ⟨es, hrest⟩ := ih (fun op' h => hops op' (List.mem_cons_of_mem op h)) hself
    exact hdoes.run hrest

/-- From a triple, what an operation does. -/
theorem does_of_triple {k : κ} {wd : PathBuf} {a : Ask} {m : Remote κ σ Unit} {t : Tree Str α} {P : St Ssh κ σ → Prop}
    (h : Triple H P m (fun _ st => st.self = k ∧ a.Does wd t true (T st.env))
      fun _ st => st.self = k ∧ a.Does wd t false (T st.env)) {st : St Ssh κ σ} (hP : P st) :
    (m H st).2.self = k ∧ a.Does wd t (m H st).1.isOk (T (m H st).2.env) :=
  h.isOk (S := fun ok st => st.self = k ∧ a.Does wd t ok (T st.env)) hP

end

/-- What a run of changes leaves behind. -/
structure Accounts {α : Type} (wd : PathBuf) (t : Tree Str α) (asks : List (Ask × Bool)) (es : List (Change Str × Bool))
    (t' : Tree Str α) : Prop where
  run : TreeRun wd t asks es t'
  closed : Closed t'
  kept : ∀ q, (∀ e ∈ es, ¬ e.1.Touches q) → t' q = t q
  /-- A directory that was made is there, until a change touches its place. -/
  made : ∀ es₁ es₂ q, es = es₁ ++ (⟨.mkdir, q⟩, true) :: es₂ → (∀ e ∈ es₂, ¬ e.1.Touches q) → t' q = some .dir
  /-- What was taken away is gone, until a directory is made in its place. -/
  gone : ∀ es₁ es₂ c q, es = es₁ ++ (c, true) :: es₂ → c.Touches q →
    (∀ e ∈ (c, true) :: es₂, e.1 ≠ ⟨.mkdir, q⟩) → t' q = none

theorem TreeRun.accounts {α : Type} {wd : PathBuf} {t t' : Tree Str α} {asks : List (Ask × Bool)}
    {es : List (Change Str × Bool)} (h : TreeRun wd t asks es t') (hc : Closed t) : Accounts wd t asks es t' where
  run := h
  closed := h.run.closed hc
  kept _ hq := h.run.kept hq
  made es₁ es₂ q hes hq := by
    have hrun := h.run
    rw [hes] at hrun
    exact hrun.made hq
  gone es₁ es₂ c q hes htouch hq := by
    have hrun := h.run
    rw [hes] at hrun
    exact hrun.gone htouch hq

namespace SftpFs

section
variable {σ α R : Type} {files : σ → Tree Str α} {H : Handler Ssh σ} {k : SftpFs} {t : Tree Str α}
  (hS : ServesChanges files H)
include hS

/-- What only looks leaves the tree as it is. -/
theorem idle_here {m : Remote SftpFs σ R} (hm : Only Idle m) :
    Triple H (Here files k t) m (fun _ => Here files k t) fun _ => Here files k t :=
  hm.triple fun c hc st h => ⟨h.self, (hS.idle c st.env hc).trans h.world⟩

omit hS in
theorem nothing_here {kind : ChangeKind} {p : PathBuf} {st : St Ssh SftpFs σ} (h : Here files k t st) :
    st.self = k ∧ Does kind t p false (files st.env) := by
  refine ⟨h.self, ?_⟩
  rw [h.world]
  exact .nothing

omit hS in
/-- The answer of a request is what the operation returns. -/
theorem orKind_does {P : St Ssh SftpFs σ → Prop} {m : Remote SftpFs σ (Except SshError Unit)} {kind : ChangeKind}
    {p : PathBuf} (ekind : RemoteErrorType)
    (hm : ∀ {E : Option RemoteError → St Ssh SftpFs σ → Prop},
      Triple H P m (fun r st => st.self = k ∧ Does kind t p r.isOk (files st.env)) E) :
    Triple H P (orKind ekind m) (fun _ st => st.self = k ∧ Does kind t p true (files st.env))
      fun _ st => st.self = k ∧ Does kind t p false (files st.env) := by
  refine .bind hm fun r => ?_
  cases r with
  | ok _ => exact .pure fun _ h => h
  | error e => exact .throw fun _ h => h

omit hS in
theorem withSftp_does {kind : ChangeKind} {path : PathBuf} {op : SshSftp → PathBuf → Remote SftpFs σ Unit}
    (hop : ∀ f, Triple H (Here files k t) (op f (absolutize k.wrkdir path))
      (fun _ st => st.self = k ∧ Does kind t (absolutize k.wrkdir path) true (files st.env))
      fun _ st => st.self = k ∧ Does kind t (absolutize k.wrkdir path) false (files st.env)) :
    Triple H (Here files k t) (withSftp path op)
      (fun _ st => st.self = k ∧ Does kind t (absolutize k.wrkdir path) true (files st.env))
      fun _ st => st.self = k ∧ Does kind t (absolutize k.wrkdir path) false (files st.env) := by
  refine here_self ?_
  cases k.sftp with
  | none => exact .throw fun _ h => nothing_here h
  | some f => exact here_self (hop f)

variable {path : PathBuf} (hw : isAbsolute k.wrkdir = true)
include hw

theorem removeFile_here :
    Triple H (Here files k t) (removeFile path : Remote SftpFs σ _)
      (fun _ st => st.self = k ∧ Does .unlink t (absolutize k.wrkdir path) true (files st.env))
      fun _ st => st.self = k ∧ Does .unlink t (absolutize k.wrkdir path) false (files st.env) := by
  refine withSftp_does fun f => orKind_does _ (.call fun st h => ⟨h.self, ?_⟩)
  have hdoes := hS.unlink f _ st.env (isAbsolute_absolutize hw path)
  rwa [h.world] at hdoes

theorem removeDir_here :
    Triple H (Here files k t) (removeDir path : Remote SftpFs σ _)
      (fun _ st => st.self = k ∧ Does .rmdir t (absolutize k.wrkdir path) true (files st.env))
      fun _ st => st.self = k ∧ Does .rmdir t (absolutize k.wrkdir path) false (files st.env) := by
  refine withSftp_does fun f => orKind_does _ (.call fun st h => ⟨h.self, ?_⟩)
  have hdoes := hS.rmdir f _ st.env (isAbsolute_absolutize hw path)
  rwa [h.world] at hdoes

theorem createDir_here (mode : UnixPex) :
    Triple H (Here files k t) (createDir path mode : Remote SftpFs σ _)
      (fun _ st => st.self = k ∧ Does .mkdir t (absolutize k.wrkdir path) true (files st.env))
      fun _ st => st.self = k ∧ Does .mkdir t (absolutize k.wrkdir path) false (files st.env) := by
  have hlook : ∀ {R : Type} {m : Remote SftpFs σ R}, Only Idle m → Triple H (Here files k t) m (fun _ => Here files k t)
      fun _ st => st.self = k ∧ Does .mkdir t (absolutize k.wrkdir path) false (files st.env) :=
    fun hm => (idle_here hS hm).conseq (fun _ h => h) (fun _ _ h => h) fun _ _ h => nothing_here h
  refine .bind (hlook checkConnection_only) fun _ => here_self (.bind (hlook (existsPath_only _)) fun b => ?_)
  refine .ite (fun _ => .throw fun _ h => nothing_here h) fun _ =>
    here_self (.unwrap (fun _ _ h => nothing_here h) fun f _ => ?_)
  refine orKind_does _ (.call fun st h => ⟨h.self, ?_⟩)
  have hdoes := hS.mkdir f _ mode.toU32 st.env (isAbsolute_absolutize hw path)
  rwa [h.world] at hdoes

end

end SftpFs

/-- **Any run of directory operations of the SFTP client is such a run, too.** -/
theorem sftp_tree_refined {σ α : Type} {files : σ → Tree Str α} {H : Handler Ssh σ} (hS : ServesChanges files H)
    (ops : List SftpTreeOp) (st : St Ssh SftpFs σ) (hclosed : Closed (files st.env))
    (hw : isAbsolute st.self.wrkdir = true) :
    ∃ es, Accounts st.self.wrkdir (files st.env) (told H (fun op => op.1.run) SftpTreeOp.ask ops st) es
      (files (runAll H (fun op : SftpTreeOp => op.1.run) ops st).env) := by
  have hops : ∀ op ∈ ops, ∀ st' : St Ssh SftpFs σ, st'.self = st.self → (op.1.run H st').2.self = st.self ∧
      op.ask.Does st.self.wrkdir (files st'.env) (op.1.run H st').1.isOk (files (op.1.run H st').2.env) := by
    rintro ⟨op, hop⟩ - st' hself
    have hhere : Here files st.self (files st'.env) st' := ⟨hself, rfl⟩
    cases op with
    | existsPath path =>
      refine does_of_triple ?_ hhere
      refine .bind ((SftpFs.idle_here hS (SftpFs.existsPath_only path)).conseq (fun _ h => h)
        (fun _ _ h => h) fun _ _ h => ?_)
        fun _ => .pure fun _ h => ?_
      · exact ⟨h.self, h.world⟩
      · exact ⟨h.self, h.world⟩
    | createDir path mode => exact does_of_triple (SftpFs.createDir_here hS hw mode) hhere
    | removeFile path => exact does_of_triple (SftpFs.removeFile_here hS hw) hhere
    | removeDir path => exact does_of_triple (SftpFs.removeDir_here hS hw) hhere
    | _ => cases hop
  obtain ⟨es, h⟩ := told_run hops rfl
  exact ⟨es, h.accounts hclosed⟩

/-! ## A server with three entries -/

/-- Nothing is lost where everything is answered. -/
theorem Serves.lossy {σ ω : Type} {M : Sh.Machine ω} {world : σ → ω} {H : Handler Ssh σ} (hH : Serves M world H) :
    Lossy M world H where
  toHosts := hH.toHosts
  lost session line st st' s err hs h := by
    obtain ⟨st₁, hr⟩ := hH.answers session line st s hs
    rw [hr] at h
    cases h

/-- Whether the directory `/d`, the file `/f` and the link `/l`, which leads nowhere, are there. -/
structure SampleDirs where
  dir : Bool
  file : Bool
  link : Bool
deriving DecidableEq

namespace SampleDirs

def d : Str := ['d']
def f : Str := ['f']
def l : Str := ['l']

def atD : PathBuf := "/d".toList
def atF : PathBuf := "/f".toList
def atL : PathBuf := "/l".toList

def tree (w : SampleDirs) : Tree Str Str := fun p =>
  if p = [] then some .dir
  else if p = [d] then (if w.dir then some .dir else none)
  else if p = [f] then (if w.file then some (.file []) else none)
  else if p = [l] ∧ w.link then some (.link false [.name ['x']])
  else none

def found (w : SampleDirs) (p : PathBuf) : Bool := (find w.tree [] (steps p)).isSome

def change (kind : ChangeKind) (w : SampleDirs) (p : PathBuf) : Option SampleDirs :=
  match kind with
  | .mkdir => if p = atD ∧ w.dir = false then some { w with dir := true } else none
  | .rmdir => if p = atD ∧ w.dir then some { w with dir := false } else none
  | .prune => if p = atD ∧ w.dir then some { w with dir := false } else none
  | .unlink =>
    if p = atF ∧ w.file then some { w with file := false }
    else if p = atL ∧ w.link then some { w with link := false } else none

/-- `rm -f` does not mind that nothing is there. -/
def exit (kind : ChangeKind) (w : SampleDirs) (p : PathBuf) : UInt8 :=
  if (change kind w p).isSome ∨ ((kind = .unlink ∨ kind = .prune) ∧ w.found p = false) then 0 else 1

def does (kind : ChangeKind) (w : SampleDirs) (p : PathBuf) : Str × UInt8 × SampleDirs :=
  ([], exit kind w p, (change kind w p).getD w)

def machine : Sh.Machine SampleDirs where
  home := ['/']
  enter _ _ _ := none
  utility w _ ws :=
    match ws with
    | [_, p] => does .rmdir w p
    | [u, a, p] =>
      if u = "test".toList then ([], if w.found p then 0 else 1, w)
      else if a = "-f".toList then does .unlink w p else does .prune w p
    | [_, _, _, p] => does .mkdir w p
    | _ => ([], 127, w)

def answer (kind : ChangeKind) (w : SampleDirs) (p : PathBuf) : Except SshError Unit :=
  if (change kind w p).isSome then .ok () else .error ⟨.sftp 4, []⟩

def stat (w : SampleDirs) (p : PathBuf) : Except SshError FileStat :=
  if w.found p then .ok ⟨some 0, none, none, none, none, none⟩ else .error ⟨.sftp 2, []⟩

def server : Handler Ssh (SampleDirs × Str) where
  reply
    | .mkdir _ p _, (w, out) => (answer .mkdir w p, ((change .mkdir w p).getD w, out))
    | .unlink _ p, (w, out) => (answer .unlink w p, ((change .unlink w p).getD w, out))
    | .rmdir _ p, (w, out) => (answer .rmdir w p, ((change .rmdir w p).getD w, out))
    | c, s => (site machine stat fun w _ _ => w).reply c s

/-- The file and the link are there. -/
def start : SampleDirs := ⟨false, true, true⟩

def scpClient : St Ssh ScpFs (SampleDirs × Str) := ⟨⟨some ⟨0⟩, ['/'], SshOpts.new "h".toList⟩, (start, []), []⟩

def sftpClient : St Ssh SftpFs (SampleDirs × Str) :=
  ⟨⟨some ⟨0⟩, some ⟨0⟩, ['/'], SshOpts.new "h".toList⟩, (start, []), []⟩

theorem closed (w : SampleDirs) : Closed w.tree := by
  refine ⟨rfl, fun p n h => ?_⟩
  have hp : p = [] := by
    by_contra hp
    have hlong : ∀ x : Str, p ++ [n] ≠ [x] := fun x hx => hp (by simpa using congrArg List.length hx)
    exact h (by simp [tree, hlong])
  rw [hp]
  rfl

theorem deadLinks (w : SampleDirs) : DeadLinks w.tree := by
  intro p n absolute way h ss q hq
  have hp : p ++ [n] = [l] ∧ absolute = false ∧ way = [.name ['x']] := by
    unfold tree at h
    split_ifs at h
    all_goals cases h
    rename_i hl
    exact ⟨hl.1, rfl, rfl⟩
  obtain ⟨hp, rfl, rfl⟩ := hp
  obtain rfl : p = [] := by
    have := congrArg List.length hp
    simpa using this
  have hnone : w.tree [['x']] = none := by simp [tree, d, f, l]
  cases hq with
  | enter hn _ => rw [show base false ([] : Place Str) ++ [['x']] = [['x']] from rfl, hnone] at hn; cases hn
  | follow hn _ => rw [show base false ([] : Place Str) ++ [['x']] = [['x']] from rfl, hnone] at hn; cases hn
  | file hn => rw [show base false ([] : Place Str) ++ [['x']] = [['x']] from rfl, hnone] at hn; cases hn
  | missing hn => exact hnone

theorem found_iff (w : SampleDirs) (p : PathBuf) : w.found p = true ↔ Leads w.tree p := by
  unfold found Leads
  rw [Option.isSome_iff_exists]
  exact exists_congr fun q => find_eq_some_iff w.closed w.deadLinks rfl

theorem entry (w : SampleDirs) {p : PathBuf} {n : Str} (h : steps p = [.empty, .name n]) :
    EntryAt w.tree (steps p) [] n :=
  ⟨[.empty], false, by rw [h]; rfl, .empty (.done rfl), rfl⟩

theorem tree_deep (w : SampleDirs) {q : Place Str} (h : 1 < q.length) : w.tree q = none := by
  have hlong : ∀ x : Str, q ≠ [x] := fun x hx => by simp [hx] at h
  have hne : q ≠ [] := fun hx => by simp [hx] at h
  simp [tree, hlong, hne]

theorem tree_dir (w : SampleDirs) (b : Bool) :
    ({ w with dir := b } : SampleDirs).tree = Function.update w.tree [d] (if b then some .dir else none) := by
  funext q
  by_cases hq : q = [d]
  · rw [hq, Function.update_self]
    rfl
  · rw [Function.update_of_ne hq]
    simp [tree, hq]

theorem tree_no_file (w : SampleDirs) : ({ w with file := false } : SampleDirs).tree =
    Function.update w.tree [f] none := by
  funext q
  by_cases hq : q = [f]
  · rw [hq, Function.update_self]
    rfl
  · rw [Function.update_of_ne hq]
    simp [tree, hq]

theorem tree_no_link (w : SampleDirs) : ({ w with link := false } : SampleDirs).tree =
    Function.update w.tree [l] none := by
  funext q
  by_cases hq : q = [l]
  · rw [hq, Function.update_self]
    simp [tree, d, f, l]
  · rw [Function.update_of_ne hq]
    simp [tree, hq]

/-- Nothing stands in the directory. -/
theorem without_dir (w : SampleDirs) : without w.tree [d] = Function.update w.tree [d] none := by
  funext q
  by_cases hq : [d] <+: q
  · rw [show without w.tree [d] q = none from without_below hq]
    obtain ⟨r, rfl⟩ := hq
    cases r with
    | nil => exact (Function.update_self [d] none w.tree).symm
    | cons n r =>
      rw [Function.update_of_ne (by simp), w.tree_deep (by simp)]
  · rw [show without w.tree [d] q = w.tree q from without_of_not hq, Function.update_of_ne]
    rintro rfl
    exact hq (List.prefix_refl _)

theorem change_ready {kind : ChangeKind} {w w' : SampleDirs} {p : PathBuf} (h : change kind w p = some w') :
    ∃ e n, EntryAt w.tree (steps p) e n ∧ Change.Ready w.tree ⟨kind, e ++ [n]⟩ ∧
      w'.tree = Change.effect w.tree ⟨kind, e ++ [n]⟩ := by
  have hbelow : ∀ n, w.tree ([d] ++ [n]) = none := fun n => w.tree_deep (by simp)
  have hdir : w.dir = true → w.tree [d] = some .dir := fun hw => by simp [tree, hw]
  cases kind with
  | mkdir =>
    simp only [change] at h
    split_ifs at h with hp
    cases h
    refine ⟨[], d, w.entry (by rw [hp.1]; rfl), ⟨?_, rfl⟩, w.tree_dir true⟩
    simp [tree, hp.2]
  | rmdir =>
    simp only [change] at h
    split_ifs at h with hp
    cases h
    exact ⟨[], d, w.entry (by rw [hp.1]; rfl), ⟨by simp, hdir hp.2, hbelow⟩, w.tree_dir false⟩
  | prune =>
    simp only [change] at h
    split_ifs at h with hp
    cases h
    refine ⟨[], d, w.entry (by rw [hp.1]; rfl), ⟨by simp, by simp [hdir hp.2]⟩, ?_⟩
    exact (w.tree_dir false).trans w.without_dir.symm
  | unlink =>
    simp only [change] at h
    split_ifs at h with hp hp'
    · cases h
      refine ⟨[], f, w.entry (by rw [hp.1]; rfl), ⟨?_, ?_⟩, w.tree_no_file⟩
      · simp [tree, hp.2, f, d]
      · simp [tree, hp.2, f, d]
    · cases h
      refine ⟨[], l, w.entry (by rw [hp'.1]; rfl), ⟨?_, ?_⟩, w.tree_no_link⟩
      · simp [tree, hp'.2, f, d, l]
      · simp [tree, hp'.2, f, d, l]

theorem change_does {kind : ChangeKind} (w : SampleDirs) (p : PathBuf) :
    Does kind w.tree p (change kind w p).isSome ((change kind w p).getD w).tree := by
  cases h : change kind w p with
  | none => exact .nothing
  | some w' =>
    obtain ⟨e, n, hentry, hready, htree⟩ := change_ready h
    refine Or.inr ⟨e, n, hentry, ?_⟩
    show Change.Outcome w.tree _ true w'.tree
    rw [htree]
    exact .made hready

theorem utility_eq (c : ShellCmd) (kind : ChangeKind) (p : PathBuf) (w : SampleDirs) (h : c.change? = some (kind, p)) :
    machine.utility w machine.home c.words = does kind w p := by
  cases c with
  | createDir mode p => cases h; rfl
  | removeFile p => cases h; rfl
  | removeDir p => cases h; rfl
  | removeDirAll p => cases h; rfl
  | _ => cases h

theorem exit_eq_zero {kind : ChangeKind} {w : SampleDirs} {p : PathBuf} :
    exit kind w p = 0 ↔ (change kind w p).isSome ∨ ((kind = .unlink ∨ kind = .prune) ∧ w.found p = false) := by
  unfold exit
  split
  · exact iff_of_true rfl ‹_›
  · exact iff_of_false (by decide) ‹_›

theorem changesTree : ChangesTree machine tree where
  existsPath_silent _ _ := rfl
  existsPath_same _ _ := rfl
  existsPath w p _ h := by
    have h : (if w.found p then (0 : UInt8) else 1) = 0 := h
    by_cases hp : w.found p = true
    · exact (w.found_iff p).1 hp
    · rw [if_neg hp] at h
      cases h
  silent c x w hc := by
    obtain ⟨kind, p⟩ := x
    rw [utility_eq c kind p w hc]
    rfl
  changes c kind p w hc _ := by
    rw [utility_eq c kind p w hc]
    by_cases hgone : (change kind w p).isSome = false ∧ (kind = .unlink ∨ kind = .prune) ∧ w.found p = false
    · refine Or.inr ⟨hgone.2.1, fun hl => ?_⟩
      rw [(w.found_iff p).2 hl] at hgone
      cases hgone.2.2
    · refine Or.inl ?_
      have hexit : decide (exit kind w p = 0) = (change kind w p).isSome := by
        rw [Bool.eq_iff_iff, decide_eq_true_iff, exit_eq_zero]
        constructor
        · rintro (h | h)
          · exact h
          · by_contra hno
            exact hgone ⟨Bool.not_eq_true _ ▸ hno, h⟩
        · exact Or.inl
      show Does kind w.tree p (decide (exit kind w p = 0)) _
      rw [hexit]
      exact w.change_does p

theorem server_serves : Serves machine Prod.fst server where
  shell session line st st' s out hs h := (site_hosts machine stat fun w _ _ => w).shell session line st st' s out hs h
  looks c env hc := by
    cases c with
    | authenticated s => rfl
    | stat f p => rfl
    | readlink f p => rfl
    | utcYear => rfl
    | _ => exact hc.elim
  up _ _ := rfl
  answers session line st s hs := (site_serves machine stat fun w _ _ => w).answers session line st s hs

theorem answer_isOk (kind : ChangeKind) (w : SampleDirs) (p : PathBuf) :
    (answer kind w p).isOk = (change kind w p).isSome := by
  unfold answer
  cases (change kind w p).isSome with
  | true => rfl
  | false => rfl

theorem server_changes : ServesChanges (fun env => env.1.tree) server where
  idle c env hc := by
    cases c with
    | authenticated s => rfl
    | stat f p => rfl
    | readlink f p => rfl
    | readdir f p => rfl
    | onWritten file => rfl
    | onRead file => rfl
    | _ => exact hc.elim
  mkdir f p mode env _ := by
    show Does .mkdir env.1.tree p (answer .mkdir env.1 p).isOk _
    rw [answer_isOk]
    exact env.1.change_does p
  unlink f p env _ := by
    show Does .unlink env.1.tree p (answer .unlink env.1 p).isOk _
    rw [answer_isOk]
    exact env.1.change_does p
  rmdir f p env _ := by
    show Does .rmdir env.1.tree p (answer .rmdir env.1 p).isOk _
    rw [answer_isOk]
    exact env.1.change_does p

def scpOps : List ScpTreeOp :=
  [⟨.createDir atD (.ofU32 0o755), rfl⟩, ⟨.existsPath d, rfl⟩, ⟨.removeFile atF, rfl⟩, ⟨.removeDir d, rfl⟩,
    ⟨.removeFile atL, rfl⟩]

def sftpOps : List SftpTreeOp :=
  [⟨.createDir atD (.ofU32 0o755), rfl⟩, ⟨.existsPath d, rfl⟩, ⟨.removeFile atF, rfl⟩, ⟨.removeDir d, rfl⟩,
    ⟨.removeFile atL, rfl⟩]

end SampleDirs

open SampleDirs in
theorem sftp_tree_refined_sample :
    (∃ es, Accounts ['/'] start.tree (told server (fun op : SftpTreeOp =>
      op.1.run) SftpTreeOp.ask sftpOps sftpClient) es
      (runAll server (fun op : SftpTreeOp => op.1.run) sftpOps sftpClient).env.1.tree) ∧
    (told server (fun op : SftpTreeOp => op.1.run) SftpTreeOp.ask sftpOps sftpClient).map Prod.snd =
      [true, true, true, true, true] :=
  ⟨sftp_tree_refined server_changes sftpOps sftpClient start.closed rfl, by decide +kernel⟩

end RemotefsSsh
