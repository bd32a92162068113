import RemotefsSsh.Listing
import RemotefsSsh.Protocol

/-!
# Every run keeps to the protocol (ssh/sftp.rs, ssh/scp.rs)

Between two operations the invariant is `On`: the calls so far kept to the protocol, and the handles in the
record are up. An operation that does not assign to the record leaves it as it is (`Heeds`); `connect` puts
handles into it that came from an admitted session, and `disconnect` takes out those it closed.
-/

namespace RemotefsSsh

open Utf8 UnixPath Effect Prog

/-- The record that is read is `k`. -/
theorem On.self_bind {κ σ α : Type} {H : Handler Ssh σ} {used : σ → SshSession → Prop} {hs : Handles} {k : κ}
    {X : Ledger → Prop} {f : κ → Remote κ σ α} {Q : α → St Ssh κ σ → Prop} {E : Option RemoteError → St Ssh κ σ → Prop}
    (hf : Triple H (On used hs k X) (f k) Q E) : Triple H (On used hs k X) (Prog.self >>= f) Q E :=
  .self fun k' => Triple.pre (.given (p := k' = k) fun hk => hk ▸ hf) fun _ h => ⟨h.2.symm.trans h.1.self, h.1⟩

/-- From what is held and `X`, `m` keeps to the protocol, and it leaves the record and `X` as they are. -/
def Heeds {κ σ α : Type} (H : Handler Ssh σ) (used : σ → SshSession → Prop) (hs : Handles) (k : κ) (X : Ledger → Prop)
    (m : Remote κ σ α) : Prop :=
  Triple H (On used hs k X) m (fun _ => On used hs k X) fun _ => On used hs k X

namespace Heeds

section
variable {κ σ α β : Type} {H : Handler Ssh σ} {used : σ → SshSession → Prop} {hs : Handles} {k : κ} {X : Ledger → Prop}

theorem pure (a : α) : Heeds H used hs k X (Pure.pure a) := Triple.pure fun _ h => h

theorem throw (e : RemoteError) : Heeds H used hs k X (Prog.throw e : Remote κ σ α) := Triple.throw fun _ h => h

theorem spin : Heeds H used hs k X (Prog.spin : Remote κ σ α) := Triple.spin fun _ h => h

theorem ofOut (o : Out RemoteError α) : Heeds H used hs k X (Prog.ofOut o) := Triple.ofOut fun _ h => h

theorem bind {m : Remote κ σ α} {f : α → Remote κ σ β} (hm : Heeds H used hs k X m)
    (hf : ∀ a, Heeds H used hs k X (f a)) :
    Heeds H used hs k X (m >>= f) := Triple.bind hm hf

theorem attempt {m : Remote κ σ α} (hm : Heeds H used hs k X m) :
    Heeds H used hs k X (Prog.attempt m : Remote κ σ (Except RemoteError α)) :=
  Triple.attempt hm (fun _ _ h => h) fun _ h => h

theorem ite {c : Prop} [Decidable c] {m n : Remote κ σ α} (hm : Heeds H used hs k X m) (hn : Heeds H used hs k X n) :
    Heeds H used hs k X (if c then m else n) := Triple.ite (fun _ => hm) fun _ => hn

variable (hF : FreshSessions H used)
include hF

theorem ask (c : SshCall) (hc : Ledger.Benign c) (hallow : ∀ μ : Ledger, μ.Holds hs → X μ → μ.Allows c)
    (hnext : ∀ μ r, X μ → X (μ.next ⟨c, r⟩)) : Heeds H used hs k X (RemotefsSsh.ask c : Remote κ σ _) :=
  ask_benign hF c hc hallow hnext

/-- A request to a handle that is held. -/
theorem request (c : SshCall) (hc : Ledger.Benign c) (hallow : ∀ μ : Ledger, μ.Holds hs → μ.Allows c) :
    Heeds H used hs k (fun _ => True) (RemotefsSsh.ask c : Remote κ σ _) :=
  .ask hF c hc (fun μ h _ => hallow μ h) fun _ _ _ => trivial

/-- Whether the session that is held is authenticated. -/
theorem authenticated {s : SshSession} (hs' : hs.session = some s) :
    Heeds H used hs k (fun _ => True) (RemotefsSsh.ask (.authenticated s) : Remote κ σ _) := by
  refine ask_on hF (.authenticated s) (by simp) fun μ hholds _ =>
    ⟨Or.inr (hholds.session s hs'), fun r => ⟨?_, trivial⟩⟩
  cases r with
  | true => exact hholds.advance (Or.inr rfl)
  | false => exact hholds

/-- A command on the session that is held. -/
theorem shell {s : SshSession} (hs' : hs.session = some s) (cmd : Str) :
    Heeds H used hs k (fun _ => True) (performShellCmd s cmd : Remote κ σ _) :=
  (performShellCmd_on hF cmd).conseq (fun _ h => ⟨h.accepted, h.known, h.self, h.holds, h.holds.session s hs'⟩)
    (fun _ _ h => h.plain) fun _ _ h => h.plain

/-- Once it is disconnected, nothing is held any more. -/
theorem disconnect {s : SshSession} (hs' : hs.session = some s) (text : Str)
    {E : Option RemoteError → St Ssh κ σ → Prop} :
    Triple H (On used hs k fun _ => True) (RemotefsSsh.ask (.disconnect s text) : Remote κ σ _)
      (fun r => On used (if r = .ok () then ⟨none, none⟩ else hs) k fun _ => True) E := by
  refine ask_on hF (.disconnect s text) (by simp) fun μ hholds _ => ⟨hholds.session s hs', fun r => ⟨?_, trivial⟩⟩
  cases r with
  | ok _ => exact ⟨fun s hs => (by cases hs), fun f hf => by cases hf⟩
  | error _ => exact hholds

theorem shellWithRc {s : SshSession} (hs' : hs.session = some s) (cmd : Str) :
    Heeds H used hs k (fun _ => True) (performShellCmdWithRc s cmd : Remote κ σ _) :=
  .bind (.shell hF hs' _) fun _ => .ofOut _

end

end Heeds

/-! ## Operations that assign nothing -/

theorem Handles.Serve.allowed {hs : Handles} {c : SshCall} (hc : hs.Serve c) {μ : Ledger} (h : μ.Holds hs) :
    μ.Allows c := by
  cases c with
  | authenticated s => exact Or.inr (h.session s hc)
  | setBlocking s _ => exact h.session s hc
  | scpSend s _ _ _ _ => exact h.session s hc
  | scpRecv s _ => exact h.session s hc
  | utcYear => trivial
  | _ => first | exact h.sftp _ hc | exact hc.elim

/-- No more than what the handles are for. -/
structure Scope.Within (X : Scope) (hs : Handles) : Prop where
  calls : ∀ c, X.calls c → hs.Serve c
  session : ∀ s, X.session s → hs.session = some s
  steps : X.steps = none

theorem Handles.within (hs : Handles) : hs.scope.Within hs := ⟨fun _ h => h, fun _ h => h, rfl⟩

section
variable {κ σ α : Type} {H : Handler Ssh σ} {used : σ → SshSession → Prop} {hs : Handles} {k : κ} {X : Scope}
  {ts : List Work} {Q : α → Prop} {m : Remote κ σ α}

variable (hF : FreshSessions H used)
include hF

theorem Piece.heeds (hX : X.Within hs) (h : Piece X α ts Q m) : Heeds H used hs k (fun _ => True) m := by
  cases h with
  | @call c hc =>
    have hserve := hX.calls c hc
    cases c with
    | authenticated s => exact .authenticated hF hserve
    | _ => first
      | exact hserve.elim
      | exact .request hF _ trivial fun _ h => hserve.allowed h
  | shell hs' _ _ => exact .shell hF (hX.session _ hs') _
  | shellWithRc hs' _ _ => exact .shellWithRc hF (hX.session _ hs') _
  | fmtTime _ => exact .ofOut _
  | transfer hsteps =>
    rw [hX.steps] at hsteps
    cases hsteps

/-- What is put together of pieces keeps to the protocol. -/
theorem Heeds.of_built {υ : Prop} {ρ : RemoteError → Prop} {b : Bool} (hX : X.Within hs)
    (hm : Built (Piece X) υ ρ k b ts Q m) : Heeds H used hs k (fun _ => True) m := by
  have htriple := hm.invariant (H := H) (I := On used hs k fun _ => True) (fun _ h => h.self) fun _ _ _ _ h =>
    ⟨h.heeds hF hX, h.value⟩
  exact htriple.conseq (fun _ h => h) (fun _ _ h => h.2) fun _ _ h => h

end

/-! ## The SCP client -/

namespace ScpFs

/-- Between two operations. -/
def Orderly {σ : Type} (used : σ → SshSession → Prop) (st : St Ssh ScpFs σ) : Prop :=
  On used (handles st.self) st.self (fun _ => True) st

theorem orderly_of_on {σ : Type} {used : σ → SshSession → Prop} {k : ScpFs} {st : St Ssh ScpFs σ}
    (h : On used (handles k) k (fun _ => True) st) : Orderly used st := by
  rw [Orderly, h.self]
  exact h

section
variable {σ α : Type} {H : Handler Ssh σ} {used : σ → SshSession → Prop} {k : ScpFs}

/-- From the record `k` to an orderly state. -/
abbrev Settles (H : Handler Ssh σ) (used : σ → SshSession → Prop) (k : ScpFs) (m : Remote ScpFs σ α) : Prop :=
  Triple H (On used (handles k) k fun _ => True) m (fun _ => Orderly used) fun _ => Orderly used

variable (hF : FreshSessions H used)
include hF

theorem settles_of_built {X : Scope} {υ : Prop} {ρ : RemoteError → Prop} {b : Bool} {ts : List Work} {Q : α → Prop}
    {m : Remote ScpFs σ α} (hX : X.Within k.handles) (hm : Built (Piece X) υ ρ k b ts Q m) : Settles H used k m :=
  (Heeds.of_built hF hX hm).conseq (fun _ h => h) (fun _ _ h => orderly_of_on h) fun _ _ h => orderly_of_on h

theorem connect_settles : Settles H used k (connect : Remote ScpFs σ _) := by
  refine On.self_bind ?_
  refine .bind ((connect_on hF k.opts).conseq (fun _ h => h) (fun _ _ h => h) fun _ _ h => orderly_of_on h) fun s => ?_
  refine .bind (ask_benign hF (.banner s) trivial (Y := fun _ μ => μ.Admitted s) (fun _ _ h => h) fun μ r h => h)
    fun banner => ?_
  refine .bind ((performShellCmd_on hF _).conseq (fun _ h => h) (fun _ _ h => h) fun _ _ h => orderly_of_on h.plain)
    fun output => ?_
  refine .bind (.modifySelf fun st h => ?_) fun _ =>
    .bind (.modifySelf (Q := fun _ => Orderly used) fun st h => h) fun _ =>
    .pure fun _ h => h
  refine ⟨h.accepted, h.known, rfl, ⟨fun s' hs => ?_, fun f hf => by cases hf⟩, trivial⟩
  cases hs
  exact h.fact

theorem disconnect_settles : Settles H used k (disconnect : Remote ScpFs σ _) := by
  refine On.self_bind ?_
  cases hs : k.session with
  | none => exact .throw fun _ h => orderly_of_on h
  | some s =>
    refine .bind (Heeds.disconnect hF hs _) fun r => ?_
    cases r with
    | error err => exact .throw fun _ h => orderly_of_on h
    | ok _ => exact .modifySelf fun st h => ⟨h.accepted, h.known, rfl, h.holds, trivial⟩

theorem changeDir_settles (dir : PathBuf) : Settles H used k (changeDir dir : Remote ScpFs σ _) := by
  have hgate : Heeds H used k.handles k (fun _ => True) (checkConnection : Remote ScpFs σ _) :=
    .of_built (ρ := Refused) (υ := True) hF k.handles.within (checkConnection_built k.handles.covers.sees)
  refine .bind (hgate.conseq (fun _ h => h) (fun _ _ h => h) fun _ _ h => orderly_of_on h) fun _ => ?_
  refine On.self_bind (On.self_bind (.unwrap (fun _ _ h => orderly_of_on h) fun s hs => ?_))
  refine .bind (Triple.conseq (Heeds.attempt (.shell hF hs _)) (fun _ h => h)
    (fun _ _ h => h) fun _ _ h => orderly_of_on h)
    fun r => ?_
  cases r with
  | error err => exact .throw fun _ h => orderly_of_on h
  | ok output =>
    refine .ite (fun _ => ?_) fun _ => .throw fun _ h => orderly_of_on h
    refine .bind (Triple.conseq (Heeds.ofOut _) (fun _ h => h) (fun _ _ h => h) fun _ _ h =>
      orderly_of_on h) fun rest => ?_
    refine .bind (.modifySelf (Q := fun _ => Orderly used) fun st h => ?_) fun _ => .self fun _ => .pure fun _ h => h.1
    obtain rfl := h.self
    exact ⟨h.accepted, h.known, rfl, h.holds, trivial⟩

theorem run_settles (L : Libs) (op : ScpOp) : Settles H used k (op.run L : Remote ScpFs σ _) := by
  have hdrop : ∀ {β : Type} {m : Remote ScpFs σ β}, Settles H used k m → Settles H used k (do let _ ← m) :=
    fun hm => .bind hm fun _ => .pure fun _ h => h
  have hbuilt : op.assigns = false → Settles H used k (op.run L : Remote ScpFs σ _) := fun hop =>
    settles_of_built hF ⟨fun _ h => h, fun _ h => h, rfl⟩ (op.built L hop k)
  cases op with
  | connect => exact hdrop (connect_settles hF)
  | disconnect => exact disconnect_settles hF
  | changeDir dir => exact hdrop (changeDir_settles hF dir)
  | _ => exact hbuilt rfl

end

end ScpFs

/-! ## The SFTP client -/

namespace SftpFs

/-- Between two operations. -/
def Orderly {σ : Type} (used : σ → SshSession → Prop) (st : St Ssh SftpFs σ) : Prop :=
  On used (handles st.self) st.self (fun _ => True) st

theorem orderly_of_on {σ : Type} {used : σ → SshSession → Prop} {k : SftpFs} {st : St Ssh SftpFs σ}
    (h : On used (handles k) k (fun _ => True) st) : Orderly used st := by
  rw [Orderly, h.self]
  exact h

section
variable {σ α : Type} {H : Handler Ssh σ} {used : σ → SshSession → Prop} {k : SftpFs}

variable (hF : FreshSessions H used)
include hF

theorem checkConnection_heeds : Heeds H used k.handles k (fun _ => True) (checkConnection : Remote SftpFs σ _) :=
  .of_built (ρ := Refused) (υ := True) hF k.handles.within (checkConnection_built k.handles.covers.sees)

theorem isConnected_heeds : Heeds H used k.handles k (fun _ => True) (isConnected : Remote SftpFs σ _) :=
  .of_built (ρ := Refused) (υ := True) (b := true) hF k.handles.within (isConnected_built k.handles.covers.sees)

theorem stat_heeds (path : PathBuf) : Heeds H used k.handles k (fun _ => True) (stat path : Remote SftpFs σ _) :=
  .of_built (ρ := Refused) (υ := True) hF k.handles.within (stat_built k.handles.covers.sees path)

theorem existsOrFalse_heeds (path : PathBuf) :
    Heeds H used k.handles k (fun _ => True) (existsOrFalse path : Remote SftpFs σ _) :=
  .of_built (ρ := Refused) (υ := True) (b := true) hF k.handles.within (existsOrFalse_built k.handles.covers.sees path)

/-! ### Transfers -/

/-- The file was opened over a session that is up. -/
def Filed (file : RemoteFile) (μ : Ledger) : Prop := ∃ s, μ.files file = some s ∧ μ.Admitted s

/-- The remote ends of a transfer are open. -/
def EndsOpen (src : Source) (dst : Sink) (μ : Ledger) : Prop :=
  (∀ file, src = .remote file → Filed file μ) ∧ ∀ file, dst = .remote file → Filed file μ

theorem write_heeds (src : Source) (dst : Sink) (buf : List UInt8) :
    Heeds H used (handles k) k (EndsOpen src dst) (dst.write buf : Remote SftpFs σ _) := by
  cases dst with
  | remote file => exact .ask hF (.fileWrite file buf) trivial (fun μ _ h => h.2 file rfl) fun μ r h => h
  | writer => exact .ask hF (.writerWrite buf) trivial (fun μ _ h => trivial) fun μ r h => h

theorem read_heeds (src : Source) (dst : Sink) :
    Heeds H used (handles k) k (EndsOpen src dst) (src.read : Remote SftpFs σ _) := by
  cases src with
  | remote file => exact .ask hF (.fileRead file bufferLen) trivial (fun μ _ h => h.1 file rfl) fun μ r h => h
  | reader => exact .ask hF (.readerRead bufferLen) trivial (fun μ _ h => trivial) fun μ r h => h

theorem writeLoop_heeds (src : Source) (dst : Sink) (buffer : List UInt8) (fuel delta : Nat) :
    Heeds H used (handles k) k (EndsOpen src dst) (writeLoop dst buffer fuel delta : Remote SftpFs σ _) := by
  induction fuel generalizing delta with
  | zero => exact .spin
  | succ fuel ih =>
    refine .ite (.bind (write_heeds hF src dst _) fun r => ?_) (.pure ())
    cases r with
    | error e => exact .throw _
    | ok n => exact ih _

theorem transferLoop_heeds (w : PointerWidth) (src : Source) (dst : Sink) (transferSize inner fuel bytes : Nat) :
    Heeds H used (handles k) k (EndsOpen src dst)
      (transferLoop w src dst transferSize inner fuel bytes : Remote SftpFs σ _) := by
  induction fuel generalizing bytes with
  | zero => exact .spin
  | succ fuel ih =>
    refine .ite (.bind (read_heeds hF src dst) fun r => ?_) (.pure bytes)
    cases r with
    | error e => exact .throw _
    | ok buffer => exact .bind (writeLoop_heeds hF src dst _ _ _) fun _ => ih _

omit hF in
theorem finish_heeds {X : Ledger → Prop} {m : Remote SftpFs σ (RemoteResult Unit)}
    (hm : Heeds H used (handles k) k X m) :
    Heeds H used (handles k) k X (finish m) := by
  refine .bind hm fun r => ?_
  cases r with
  | ok _ => exact .pure ()
  | error e => exact .throw e

/-- A program that opens a file. -/
abbrev Opens (H : Handler Ssh σ) (used : σ → SshSession → Prop) (k : SftpFs) (m : Remote SftpFs σ RemoteFile) : Prop :=
  Triple H (On used (handles k) k fun _ => True) m (fun file => On used (handles k) k (Filed file))
    fun _ => On used (handles k) k fun _ => True

omit hF in
theorem orKind_opens {kind : RemoteErrorType} {m : Remote SftpFs σ (Except SshError RemoteFile)}
    (hm : Triple H (On used (handles k) k fun _ => True) m
      (fun r => On used (handles k) k fun μ => ∀ file, r = .ok file → Filed file μ)
      fun _ => On used (handles k) k fun _ => True) : Opens H used k (orKind kind m) := by
  refine .bind hm fun r => ?_
  cases r with
  | ok file => exact .pure fun _ h => h.imp fun _ h => h file rfl
  | error e => exact .throw fun _ h => h.plain

omit hF in
theorem filed_of_opened {μ : Ledger} {f : SshSftp} (h : μ.Usable f) (file : RemoteFile) :
    Filed file { μ with files := Function.update μ.files file (μ.sftps f) } := by
  obtain ⟨s, hs, hadmitted⟩ := h
  exact ⟨s, (Function.update_self ..).trans hs, hadmitted⟩

theorem openMode_opens {f : SshSftp} (hf : k.sftp = some f) (p : PathBuf) (flags : List OpenFlag) (mode : UInt32)
    (kind : RemoteErrorType) : Opens H used k (orKind kind (ask (.openMode f p flags mode)) : Remote SftpFs σ _) := by
  refine orKind_opens (ask_on hF (.openMode f p flags mode) (by simp) fun μ hholds _ =>
    ⟨hholds.sftp f hf, fun r => ⟨?_, ?_⟩⟩)
  · exact hholds.benign (c := .openMode f p flags mode) trivial r
  · rintro file rfl
    exact filed_of_opened (hholds.sftp f hf) file

theorem openRead_opens {f : SshSftp} (hf : k.sftp = some f) (p : PathBuf) (kind : RemoteErrorType) :
    Opens H used k (orKind kind (ask (.openRead f p)) : Remote SftpFs σ _) := by
  refine orKind_opens (ask_on hF (.openRead f p) (by simp) fun μ hholds _ => ⟨hholds.sftp f hf, fun r => ⟨?_, ?_⟩⟩)
  · exact hholds.benign (c := .openRead f p) trivial r
  · rintro file rfl
    exact filed_of_opened (hholds.sftp f hf) file

/-- `append` and `create`. -/
theorem opening_opens (path : PathBuf) (kind : RemoteErrorType) (flags : List OpenFlag) (mode : UInt32) :
    Opens H used k (withSftp path fun f p => orKind kind (ask (.openMode f p flags mode)) : Remote SftpFs σ _) := by
  refine On.self_bind ?_
  cases hf : k.sftp with
  | none => exact .throw fun _ h => h
  | some f => exact On.self_bind (openMode_opens hF hf _ _ _ _)

theorem openRead_filed (path : PathBuf) : Opens H used k (openRead path : Remote SftpFs σ _) := by
  refine .bind (checkConnection_heeds hF) fun _ => On.self_bind (.bind (existsOrFalse_heeds hF _) fun _ => ?_)
  refine .ite (fun _ => On.self_bind (.unwrap (fun _ _ h => h) fun f hf => openRead_opens hF hf _ _)) fun _ =>
    .throw fun _ h => h

/-! ### Operations that assign, and runs -/

/-- From the record `k` to an orderly state. -/
abbrev Settles (H : Handler Ssh σ) (used : σ → SshSession → Prop) (k : SftpFs) (m : Remote SftpFs σ α) : Prop :=
  Triple H (On used (handles k) k fun _ => True) m (fun _ => Orderly used) fun _ => Orderly used

omit hF in
theorem settles_of_on {X : α → Ledger → Prop} {Y : Ledger → Prop} {m : Remote SftpFs σ α}
    (hm : Triple H (On used (handles k) k fun _ => True) m (fun a => On used (handles k) k (X a))
      fun _ => On used (handles k) k Y) : Settles H used k m :=
  hm.conseq (fun _ h => h) (fun _ _ h => orderly_of_on h.plain) fun _ _ h => orderly_of_on h.plain

/-- A transfer between open ends and what is called when it is done. -/
theorem transferred_settles (src : Source) (dst : Sink) {w : PointerWidth} {size : UInt64} {fuel : Nat}
    {done : Remote SftpFs σ (RemoteResult Unit)} (hdone : Heeds H used (handles k) k (EndsOpen src dst) done)
    {P : St Ssh SftpFs σ → Prop} (hP : ∀ st, P st → On used (handles k) k (EndsOpen src dst) st) :
    Triple H P (do
      let bytes ← transfer w src dst size fuel
      finish done
      pure (UInt64.ofNat bytes) : Remote SftpFs σ UInt64) (fun _ => Orderly used) fun _ => Orderly used := by
  have htransfer : Heeds H used (handles k) k (EndsOpen src dst) (do
      let bytes ← transfer w src dst size fuel
      finish done
      pure (UInt64.ofNat bytes) : Remote SftpFs σ UInt64) :=
    .bind (transferLoop_heeds hF w src dst _ _ _ _) fun _ => .bind (finish_heeds hdone) fun _ => .pure _
  exact Triple.conseq htransfer hP (fun _ _ h => orderly_of_on h.plain) fun _ _ h => orderly_of_on h.plain

theorem upload_settles (w : PointerWidth) (fuel : Nat) {opening : Remote SftpFs σ RemoteFile}
    (ho : Opens H used k opening)
    (metadata : Metadata) : Settles H used k (upload w fuel opening metadata) := by
  refine .bind ((isConnected_heeds hF).conseq (fun _ h => h) (fun _ _ h => h) fun _ _ h => orderly_of_on h) fun _ => ?_
  refine .ite (fun _ => ?_) fun _ => .throw fun _ h => orderly_of_on h
  refine .bind (ho.conseq (fun _ h => h) (fun _ _ h => h) fun _ _ h => orderly_of_on h) fun stream => ?_
  refine transferred_settles hF .reader (.remote stream)
    (.ask hF (.onWritten stream) trivial (fun μ _ h => h.2 stream rfl) fun _ _ h => h) fun st h => h.imp fun μ h => ?_
  exact ⟨fun file hfile => (by cases hfile), fun file hfile => by cases hfile; exact h⟩

theorem openFile_settles (w : PointerWidth) (fuel : Nat) (src : PathBuf) :
    Settles H used k (openFile w fuel src : Remote SftpFs σ _) := by
  refine .bind ((isConnected_heeds hF).conseq (fun _ h => h) (fun _ _ h => h) fun _ _ h => orderly_of_on h) fun _ => ?_
  refine .ite (fun _ => ?_) fun _ => .throw fun _ h => orderly_of_on h
  refine .bind ((stat_heeds hF src).conseq (fun _ h => h) (fun _ _ h => h) fun _ _ h => orderly_of_on h) fun file => ?_
  refine .bind ((openRead_filed hF src).conseq (fun _ h => h) (fun _ _ h => h) fun _ _ h =>
    orderly_of_on h) fun stream => ?_
  refine transferred_settles hF (.remote stream) .writer
    (.ask hF (.onRead stream) trivial (fun μ _ h => h.1 stream rfl) fun _ _ h => h) fun st h => h.imp fun μ h => ?_
  exact ⟨fun file hfile => (by cases hfile; exact h), fun file hfile => by cases hfile⟩

theorem connect_settles : Settles H used k (connect : Remote SftpFs σ _) := by
  refine On.self_bind ?_
  refine .bind ((connect_on hF k.opts).conseq (fun _ h => h) (fun _ _ h => h) fun _ _ h => orderly_of_on h) fun s => ?_
  refine .bind (ask_benign hF (.setBlocking s true) trivial (Y := fun _ μ => μ.Admitted s)
    (fun _ _ h => h) fun μ r h => h)
    fun _ => ?_
  refine .bind (Q := fun r => On used (handles k) k fun μ => μ.Admitted s ∧ ∀ f, r = .ok f → μ.sftps f = some s)
    (ask_on hF (.sftp s) (by simp) fun μ hholds h => ⟨h, fun r => ?_⟩) fun r => ?_
  · cases r with
    | error _ => exact ⟨hholds, h, fun f hf => by cases hf⟩
    | ok f =>
      -- the channel may have been another session's, but that one is not held
      refine ⟨⟨hholds.session, fun f' hf' => ?_⟩, h, fun f' hf' => by cases hf'; exact Function.update_self ..⟩
      by_cases hne : f' = f
      · exact ⟨s, by rw [hne]; exact Function.update_self .., h⟩
      · obtain ⟨o, ho, hadmitted⟩ := hholds.sftp f' hf'
        exact ⟨o, (Function.update_of_ne hne _ _).trans ho, hadmitted⟩
  cases r with
  | error err => exact .throw fun _ h => orderly_of_on h.plain
  | ok f =>
    refine .bind (Q := fun _ => On used (handles k) k fun μ => μ.Admitted s ∧ μ.sftps f = some s)
      (ask_benign hF (.realpath f dot) trivial (fun μ _ h => ⟨s, h.2 f rfl, h.1⟩) fun μ r h =>
        ⟨h.1, h.2 f rfl⟩) fun r => ?_
    cases r with
    | error err => exact .throw fun _ h => orderly_of_on h.plain
    | ok p =>
      -- the record is assigned to in three steps, and holds the new handles after the last one
      refine .bind (.modifySelf (Q := fun _ => On used ⟨some s, some f⟩
        { k with wrkdir := p } fun _ => True) fun st h =>
        ?_) fun _ => ?_
      · refine ⟨h.accepted, h.known, by rw [h.self], ⟨fun s' hs => ?_, fun f' hf' => ?_⟩, trivial⟩
        · cases hs
          exact h.fact.1
        · cases hf'
          exact ⟨s, h.fact.2, h.fact.1⟩
      refine .bind (.modifySelf (Q := fun _ => On used ⟨some s, some f⟩
        { k with wrkdir := p, session := some s } fun _ => True)
        fun st h => ⟨h.accepted, h.known, by rw [h.self], h.holds, trivial⟩) fun _ => ?_
      refine .bind (.modifySelf (Q := fun _ =>
        On used ⟨some s, some f⟩ { k with wrkdir := p, session := some s, sftp := some f }
        fun _ => True) fun st h => ⟨h.accepted, h.known, by rw [h.self], h.holds, trivial⟩) fun _ => ?_
      refine On.self_bind (.unwrap (fun h => (by cases h)) fun s' hs => ?_)
      cases hs
      refine .bind (Triple.conseq (Heeds.request hF (.banner s) trivial fun _ h => h.session s rfl) (fun _ h => h)
        (fun _ _ h => h) fun _ _ h => ?_) fun _ => .pure fun _ h => ?_
      · exact orderly_of_on (k := ⟨some s, some f, p, k.opts⟩) h
      · exact orderly_of_on (k := ⟨some s, some f, p, k.opts⟩) h

theorem disconnect_settles : Settles H used k (disconnect : Remote SftpFs σ _) := by
  refine On.self_bind ?_
  cases hs : k.session with
  | none => exact .throw fun _ h => orderly_of_on h
  | some s =>
    refine .bind (Heeds.disconnect hF hs _) fun r => ?_
    cases r with
    | error err => exact .throw fun _ h => orderly_of_on h
    | ok _ =>
      exact .bind (.modifySelf (Q := fun _ => On used ⟨none, none⟩ { k with session := none } fun _ => True)
        fun st h => ⟨h.accepted, h.known, by rw [h.self], h.holds, trivial⟩) fun _ =>
          .modifySelf fun st h => ⟨h.accepted, h.known, rfl, by rw [h.self]; exact h.holds, trivial⟩

theorem changeDir_settles (dir : PathBuf) : Settles H used k (changeDir dir : Remote SftpFs σ _) := by
  refine .bind ((checkConnection_heeds hF).conseq (fun _ h => h) (fun _ _ h => h) fun _ _ h =>
    orderly_of_on h) fun _ => ?_
  refine On.self_bind (.bind ((stat_heeds hF _).conseq (fun _ h => h) (fun _ _ h => h) fun _ _ h => orderly_of_on h)
    fun file => ?_)
  refine .ite (fun _ => ?_) fun _ => .throw fun _ h => orderly_of_on h
  refine .bind (.modifySelf (Q := fun _ => Orderly used) fun st h => ?_) fun _ => .self fun _ => .pure fun _ h => h.1
  obtain rfl := h.self
  exact ⟨h.accepted, h.known, rfl, h.holds, trivial⟩

theorem run_settles (op : SftpOp) : Settles H used k (op.run : Remote SftpFs σ _) := by
  have hdrop : ∀ {β : Type} {m : Remote SftpFs σ β}, Settles H used k m → Settles H used k (do let _ ← m) :=
    fun hm => .bind hm fun _ => .pure fun _ h => h
  have hbuilt : op.assigns = false → steps? op = none → Settles H used k (op.run : Remote SftpFs σ _) := by
    intro hop hsteps
    have hX : (op.scope k.handles).Within k.handles := by
      refine ⟨fun c hc => hc.resolve_right fun hend => ?_, fun _ h => h, hsteps⟩
      rw [hsteps] at hend
      cases hend.2
    exact settles_of_on (Heeds.of_built hF hX (op.built hop k))
  cases op with
  | connect => exact hdrop (connect_settles hF)
  | disconnect => exact disconnect_settles hF
  | changeDir dir => exact hdrop (changeDir_settles hF dir)
  | appendFile w fuel path metadata => exact hdrop (upload_settles hF w fuel (opening_opens hF path _ _ _) metadata)
  | createFile w fuel path metadata => exact hdrop (upload_settles hF w fuel (opening_opens hF path _ _ _) metadata)
  | openFile w fuel src => exact hdrop (openFile_settles hF w fuel src)
  | _ => exact hbuilt rfl rfl

end

end SftpFs

/-! ## Runs -/

/-- **Every run of either client keeps to the protocol**, whatever the server answers, and what the record holds
at its end is up: its session is admitted and not disconnected, its SFTP channel was opened on such a session. -/
theorem protocol_kept {σ : Type} (H : Handler Ssh σ) (used : σ → SshSession → Prop)
    (hF : FreshSessions H used) (L : Libs)
    (opts : SshOpts) (env : σ) :
    (∀ (ops : List SftpOp) st, st = runAll H SftpOp.run ops ⟨SftpFs.new opts, env, []⟩ →
      protocol.Accepts st.log ∧ (protocol.after st.log).Holds st.self.handles) ∧
    ∀ (ops : List ScpOp) st, st = runAll H (ScpOp.run L) ops ⟨ScpFs.new opts, env, []⟩ →
      protocol.Accepts st.log ∧ (protocol.after st.log).Holds st.self.handles := by
  have hnone : Ledger.Holds ⟨none, none⟩ (protocol.after []) := ⟨fun s hs => (by cases hs), fun f hf => by cases hf⟩
  have hknown : ∀ s, (protocol.after []).phase s ≠ none → used env s := fun s hs => absurd rfl hs
  constructor
  · rintro ops st rfl
    have h0 : SftpFs.Orderly used ⟨SftpFs.new opts, env, []⟩ := ⟨protocol.accepts_nil, hknown, rfl, hnone, trivial⟩
    have h := runAll_inv (SftpFs.Orderly used) (fun op _ h => (SftpFs.run_settles hF op).ends h) ops h0
    exact ⟨h.accepted, h.holds⟩
  · rintro ops st rfl
    have h0 : ScpFs.Orderly used ⟨ScpFs.new opts, env, []⟩ := ⟨protocol.accepts_nil, hknown, rfl, hnone, trivial⟩
    have h := runAll_inv (ScpFs.Orderly used) (fun op _ h => (ScpFs.run_settles hF L op).ends h) ops h0
    exact ⟨h.accepted, h.holds⟩

/-- A server that numbers its sessions and knows which of them gave a password. -/
def countingServer : Handler Ssh (Nat × List SshSession) where
  reply
    | .sessionNew, (n, authed) => (.ok ⟨n⟩, n + 1, authed)
    | .authenticated s, (n, authed) => (authed.contains s, n, authed)
    | .userauthPassword s _ _, (n, authed) => (.ok (), n, s :: authed)
    | .disconnect s _, (n, authed) => (.ok (), n, authed.erase s)
    | .channelReadToString _, st => (.ok ['/'], st)
    | c, st => (okReply c, st)

theorem countingServer_fresh : FreshSessions countingServer fun env s => s.id < env.1 where
  new env s h := by
    cases h
    exact ⟨Nat.lt_irrefl _, Nat.lt_succ_self _⟩
  kept c env s h := by
    cases c with
    | sessionNew => exact Nat.lt_succ_of_lt h
    | _ => exact h

/-- Two connections of the one client and an upload, a connection of the other and an `rm -rf`. -/
theorem protocol_kept_counting :
    (runAll countingServer SftpOp.run
      [.connect, .disconnect, .connect, .createFile .w64 1 ['a'] (.ofSize 0), .exec ['b'], .disconnect]
      ⟨SftpFs.new (.new ['h']), (0, []), []⟩).log.length = 32 ∧
    protocol.Accepts (runAll countingServer SftpOp.run
      [.connect, .disconnect, .connect, .createFile .w64 1 ['a'] (.ofSize 0), .exec ['b'], .disconnect]
      ⟨SftpFs.new (.new ['h']), (0, []), []⟩).log ∧
    protocol.Accepts (runAll countingServer (ScpOp.run sampleLibs) [.connect, .removeDirAll ['a'], .disconnect, .pwd]
      ⟨ScpFs.new (.new ['h']), (0, []), []⟩).log :=
  ⟨by decide +kernel, ((protocol_kept countingServer _ countingServer_fresh sampleLibs
    (.new ['h']) (0, [])).1 _ _ rfl).1,
    ((protocol_kept countingServer _ countingServer_fresh sampleLibs (.new ['h']) (0, [])).2 _ _ rfl).1⟩

end RemotefsSsh
