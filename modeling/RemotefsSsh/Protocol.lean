import RemotefsSsh.Client
import RemotefsSsh.Lib.Monitor

/-!
# The protocol of sessions and handles

What `ssh2` expects of its caller, as a monitor. A session gets a socket, then its preferences, then the
handshake, then credentials until one is accepted; only then it opens channels, and none of it is used once it
was disconnected. A shell channel runs one command and is read before it is closed. Every request goes to a
handle that was handed out on an admitted session.

The commands of `connect` and the shell keep to it (this file), and so does every operation of both clients
(`ProtocolRuns.lean`).
-/

namespace RemotefsSsh

open Utf8 UnixPath Effect Prog

inductive SessionPhase where
  | created
  /-- It has a socket. -/
  | wired
  /-- The handshake succeeded. -/
  | shaken
  /-- A credential was accepted, or the server says that none is needed. -/
  | admitted
  | closed
deriving DecidableEq, Repr

inductive ChannelStage where
  | opened
  | running
  | drained
deriving DecidableEq, Repr

/-- What is known from the calls so far. -/
structure Ledger where
  streams : TcpStream → Bool
  phase : SshSession → Option SessionPhase
  agents : Agent → Option SshSession
  channels : Channel → Option (SshSession × ChannelStage)
  sftps : SshSftp → Option SshSession
  files : RemoteFile → Option SshSession

namespace Ledger

def empty : Ledger := ⟨fun _ => false, fun _ => none, fun _ => none, fun _ => none, fun _ => none, fun _ => none⟩

/-- A session that is known goes on to `p`. -/
def advance (μ : Ledger) (s : SshSession) (p : SessionPhase) : Ledger :=
  { μ with phase := Function.update μ.phase s ((μ.phase s).map fun _ => p) }

def Admitted (μ : Ledger) (s : SshSession) : Prop := μ.phase s = some .admitted

/-- The SFTP channel was opened on a session that is up. -/
def Usable (μ : Ledger) (f : SshSftp) : Prop := ∃ s, μ.sftps f = some s ∧ μ.Admitted s

/-- The agent serves a session that waits for credentials. -/
def Serving (μ : Ledger) (a : Agent) : Prop := ∃ s, μ.agents a = some s ∧ μ.phase s = some .shaken

def InPhase (μ : Ledger) (ch : Channel) (p : ChannelStage) : Prop := ∃ s, μ.channels ch = some (s, p) ∧ μ.Admitted s

def Allows (μ : Ledger) : SshCall → Prop
  | .setTcpStream s stream => μ.phase s = some .created ∧ μ.streams stream = true
  | .setCompress s _ | .methodPref s .. | .handshake s => μ.phase s = some .wired
  | .agent s | .userauthPubkeyFile s .. | .userauthPassword s .. => μ.phase s = some .shaken
  | .agentConnect a | .agentListIdentities a | .agentIdentities a => μ.Serving a
  | .agentUserauth s a .. => μ.agents a = some s ∧ μ.phase s = some .shaken
  | .agentDisconnect a => ∃ s, μ.agents a = some s ∧ (μ.phase s = some .shaken ∨ μ.Admitted s)
  | .authenticated s => μ.phase s = some .shaken ∨ μ.Admitted s
  | .banner s | .setBlocking s _ | .disconnect s _ | .channelSession s | .sftp s | .scpSend s .. | .scpRecv s _ =>
    μ.Admitted s
  | .channelExec ch _ => μ.InPhase ch .opened
  | .channelReadToString ch => μ.InPhase ch .running
  | .channelWaitClose ch => μ.InPhase ch .drained
  | .realpath f _ | .readdir f _ | .stat f _ | .setstat f .. | .readlink f _ | .unlink f _ | .rmdir f _ | .mkdir f ..
  | .symlink f .. | .renameOverwrite f .. | .openMode f .. | .openRead f _ => μ.Usable f
  | .fileRead file _ | .fileWrite file _ | .onWritten file | .onRead file => ∃ s, μ.files file = some s ∧ μ.Admitted s
  | .configOpen _ | .configParse .. | .toSocketAddrs _ | .tcpConnect _ | .tcpConnectTimeout .. | .sessionNew
  | .readerRead _ | .writerWrite _ | .utcYear => True

def next (μ : Ledger) : Sigma SshCall.Reply → Ledger
  | ⟨.tcpConnect _, .ok stream⟩ => { μ with streams := Function.update μ.streams stream true }
  | ⟨.tcpConnectTimeout .., .ok stream⟩ => { μ with streams := Function.update μ.streams stream true }
  | ⟨.sessionNew, .ok s⟩ => { μ with phase := Function.update μ.phase s (some .created) }
  | ⟨.setTcpStream s _, _⟩ => μ.advance s .wired
  | ⟨.handshake s, .ok _⟩ => μ.advance s .shaken
  | ⟨.agent s, .ok a⟩ => { μ with agents := Function.update μ.agents a (some s) }
  | ⟨.agentUserauth s .., .ok _⟩ => μ.advance s .admitted
  | ⟨.userauthPubkeyFile s .., .ok _⟩ => μ.advance s .admitted
  | ⟨.userauthPassword s .., .ok _⟩ => μ.advance s .admitted
  | ⟨.authenticated s, true⟩ => μ.advance s .admitted
  | ⟨.disconnect s _, .ok _⟩ => μ.advance s .closed
  | ⟨.channelSession s, .ok ch⟩ => { μ with channels := Function.update μ.channels ch (some (s, .opened)) }
  | ⟨.channelExec ch _, .ok _⟩ =>
    { μ with channels := Function.update μ.channels ch ((μ.channels ch).map fun x => (x.1, .running)) }
  | ⟨.channelReadToString ch, .ok _⟩ =>
    { μ with channels := Function.update μ.channels ch ((μ.channels ch).map fun x => (x.1, .drained)) }
  | ⟨.channelWaitClose ch, _⟩ => { μ with channels := Function.update μ.channels ch none }
  | ⟨.sftp s, .ok f⟩ => { μ with sftps := Function.update μ.sftps f (some s) }
  | ⟨.openMode f .., .ok file⟩ => { μ with files := Function.update μ.files file (μ.sftps f) }
  | ⟨.openRead f _, .ok file⟩ => { μ with files := Function.update μ.files file (μ.sftps f) }
  | _ => μ

end Ledger

def protocol : Monitor Ssh Ledger where
  start := .empty
  allows := Ledger.Allows
  next := Ledger.next

/-! ## What a client holds -/

/-- Sessions that are handed out are new objects. -/
structure FreshSessions {σ : Type} (H : Handler Ssh σ) (used : σ → SshSession → Prop) : Prop where
  new : ∀ env s, (H.reply .sessionNew env).1 = .ok s → ¬ used env s ∧ used (H.reply .sessionNew env).2 s
  kept : ∀ c env s, used env s → used (H.reply c env).2 s

namespace Ledger

/-- What is held is up. -/
structure Holds (hs : Handles) (μ : Ledger) : Prop where
  session : ∀ s, hs.session = some s → μ.Admitted s
  sftp : ∀ f, hs.sftp = some f → μ.Usable f

/-- Calls that change neither the phase of a session nor who owns an SFTP channel. -/
def Benign : SshCall → Prop
  | .sessionNew | .setTcpStream .. | .handshake _ | .agentUserauth .. | .userauthPubkeyFile .. | .userauthPassword ..
  | .authenticated _ | .disconnect .. | .sftp _ => False
  | _ => True

section
variable {μ μ' : Ledger} {hs : Handles} {s s' : SshSession} {p : SessionPhase} {f : SshSftp}

theorem next_benign {c : SshCall} (hc : Benign c) (r : c.Reply) :
    (μ.next ⟨c, r⟩).phase = μ.phase ∧ (μ.next ⟨c, r⟩).sftps = μ.sftps := by
  cases c with
  | sessionNew => exact hc.elim
  | setTcpStream _ _ => exact hc.elim
  | handshake _ => exact hc.elim
  | agentUserauth _ _ _ _ => exact hc.elim
  | userauthPubkeyFile _ _ _ _ => exact hc.elim
  | userauthPassword _ _ _ => exact hc.elim
  | authenticated _ => exact hc.elim
  | disconnect _ _ => exact hc.elim
  | sftp _ => exact hc.elim
  | tcpConnect _ => cases r <;> exact ⟨rfl, rfl⟩
  | tcpConnectTimeout _ _ => cases r <;> exact ⟨rfl, rfl⟩
  | agent _ => cases r <;> exact ⟨rfl, rfl⟩
  | channelSession _ => cases r <;> exact ⟨rfl, rfl⟩
  | channelExec _ _ => cases r <;> exact ⟨rfl, rfl⟩
  | channelReadToString _ => cases r <;> exact ⟨rfl, rfl⟩
  | openMode _ _ _ _ => cases r <;> exact ⟨rfl, rfl⟩
  | openRead _ _ => cases r <;> exact ⟨rfl, rfl⟩
  | _ => exact ⟨rfl, rfl⟩

theorem advance_self (h : μ.phase s ≠ none) (p : SessionPhase) : (μ.advance s p).phase s = some p := by
  obtain ⟨q, hq⟩ := Option.ne_none_iff_exists'.1 h
  simp [advance, hq]

theorem advance_of_ne (h : s' ≠ s) (p : SessionPhase) : (μ.advance s p).phase s' = μ.phase s' :=
  Function.update_of_ne h _ _

theorem Admitted.advance (h : μ.Admitted s') (hs : μ.phase s ≠ some .admitted ∨ p = .admitted) :
    (μ.advance s p).Admitted s' := by
  by_cases hne : s' = s
  · subst hne
    rcases hs with hs | rfl
    · exact absurd h hs
    · exact advance_self (by rw [h]; simp) _
  · rw [Admitted, advance_of_ne hne]
    exact h

theorem Holds.advance (h : μ.Holds hs) (hp : μ.phase s ≠ some .admitted ∨ p = .admitted) :
    (μ.advance s p).Holds hs where
  session s' hs' := (h.session s' hs').advance hp
  sftp f hf := by
    obtain ⟨o, ho, hadmitted⟩ := h.sftp f hf
    exact ⟨o, ho, hadmitted.advance hp⟩

theorem Holds.of_eq (h : μ.Holds hs) (hphase : μ'.phase = μ.phase) (hsftps : μ'.sftps = μ.sftps) : μ'.Holds hs where
  session s hs' := by
    rw [Admitted, hphase]
    exact h.session s hs'
  sftp f hf := by
    obtain ⟨o, ho, hadmitted⟩ := h.sftp f hf
    refine ⟨o, by rw [hsftps, ho], ?_⟩
    rw [Admitted, hphase]
    exact hadmitted

theorem Holds.benign (h : μ.Holds hs) {c : SshCall} (hc : Benign c) (r : c.Reply) : (μ.next ⟨c, r⟩).Holds hs :=
  h.of_eq (next_benign hc r).1 (next_benign hc r).2

/-- No session becomes known but by `sessionNew`. -/
theorem next_known {c : SshCall} (hc : c ≠ .sessionNew) (r : c.Reply) (h : (μ.next ⟨c, r⟩).phase s ≠ none) :
    μ.phase s ≠ none := by
  have hadvance : ∀ s' p, (μ.advance s' p).phase s ≠ none → μ.phase s ≠ none := by
    intro s' p h hnone
    by_cases hne : s = s'
    · subst hne
      exact h (by simp [advance, hnone])
    · exact h (by rw [advance_of_ne hne, hnone])
  by_cases hb : Benign c
  · rwa [(next_benign hb r).1] at h
  cases c with
  | sessionNew => exact absurd rfl hc
  | setTcpStream _ _ => exact hadvance _ _ h
  | handshake _ =>
    cases r with
    | ok _ => exact hadvance _ _ h
    | error _ => exact h
  | agentUserauth _ _ _ _ =>
    cases r with
    | ok _ => exact hadvance _ _ h
    | error _ => exact h
  | userauthPubkeyFile _ _ _ _ =>
    cases r with
    | ok _ => exact hadvance _ _ h
    | error _ => exact h
  | userauthPassword _ _ _ =>
    cases r with
    | ok _ => exact hadvance _ _ h
    | error _ => exact h
  | authenticated _ =>
    cases r with
    | true => exact hadvance _ _ h
    | false => exact h
  | disconnect _ _ =>
    cases r with
    | ok _ => exact hadvance _ _ h
    | error _ => exact h
  | sftp _ => cases r <;> exact h
  | _ => exact absurd trivial hb

end

end Ledger

/-! ## Runs that keep to the protocol -/

/-- The calls so far kept to the protocol, the record is `k`, what it holds is up, and `X` is known. -/
structure On {κ σ : Type} (used : σ → SshSession → Prop) (hs : Handles) (k : κ) (X : Ledger → Prop) (st : St Ssh κ σ) :
    Prop where
  accepted : protocol.Accepts st.log
  known : ∀ s, (protocol.after st.log).phase s ≠ none → used st.env s
  self : st.self = k
  holds : (protocol.after st.log).Holds hs
  fact : X (protocol.after st.log)

namespace On

variable {κ σ α : Type} {used : σ → SshSession → Prop} {hs : Handles} {k : κ} {X Y Z : Ledger → Prop} {st : St Ssh κ σ}

theorem imp (h : On used hs k X st) (hXY : ∀ μ, X μ → Y μ) : On used hs k Y st :=
  ⟨h.accepted, h.known, h.self, h.holds, hXY _ h.fact⟩

/-- Nothing but what is held. -/
theorem plain (h : On used hs k X st) : On used hs k (fun _ => True) st := h.imp fun _ _ => trivial

end On

section
variable {κ σ α : Type} {H : Handler Ssh σ} {used : σ → SshSession → Prop} {hs : Handles} {k : κ} {X : Ledger → Prop}
  {E : Option RemoteError → St Ssh κ σ → Prop} {s : SshSession} {p : SessionPhase}

variable (hF : FreshSessions H used)
include hF

/-- What a call is allowed and what holds after it; `hs'` is what is still held then. -/
theorem ask_on (c : SshCall) (hc : c ≠ .sessionNew) {hs' : c.Reply → Handles} {Y : c.Reply → Ledger → Prop}
    (h : ∀ μ, μ.Holds hs → X μ → μ.Allows c ∧ ∀ r, (μ.next ⟨c, r⟩).Holds (hs' r) ∧ Y r (μ.next ⟨c, r⟩)) :
    Triple H (On used hs k X) (ask c : Remote κ σ _) (fun r => On used (hs' r) k (Y r)) E := by
  refine .call fun st hst => ?_
  obtain ⟨hallow, hnext⟩ := h _ hst.holds hst.fact
  obtain ⟨hholds, hY⟩ := hnext (H.reply c st.env).1
  have hafter : protocol.after (asked H c st).log = (protocol.after st.log).next ⟨c, (H.reply c st.env).1⟩ :=
    protocol.after_asked
  refine ⟨protocol.accepts_asked hst.accepted hallow, fun s' hs' => ?_, hst.self, ?_, ?_⟩
  · rw [hafter] at hs'
    exact hF.kept _ _ _ (hst.known s' (Ledger.next_known hc _ hs'))
  · rw [hafter]
    exact hholds
  · rw [hafter]
    exact hY

/-- A call that changes neither phases nor SFTP channels. -/
theorem ask_benign (c : SshCall) (hc : Ledger.Benign c) {Y : c.Reply → Ledger → Prop}
    (hallow : ∀ μ : Ledger, μ.Holds hs → X μ → μ.Allows c) (hnext : ∀ μ r, X μ → Y r (μ.next ⟨c, r⟩)) :
    Triple H (On used hs k X) (ask c : Remote κ σ _) (fun r => On used hs k (Y r)) E := by
  refine ask_on hF c ?_ fun μ hholds hX => ⟨hallow μ hholds hX, fun r => ⟨?_, hnext μ r hX⟩⟩
  · rintro rfl
    exact hc
  · exact hholds.benign hc r

/-- One that asks for a session in phase `p`. -/
theorem ask_phase (c : SshCall) (hc : Ledger.Benign c) (hallow : ∀ μ : Ledger, μ.phase s = some p → μ.Allows c) :
    Triple H (On used hs k fun μ => μ.phase s = some p) (ask c : Remote κ σ _)
      (fun _ => On used hs k fun μ => μ.phase s = some p) E :=
  ask_benign hF c hc (fun μ _ => hallow μ) fun μ r hX => by rwa [(Ledger.next_benign hc r).1]

/-- One that any state allows, and that leaves no trace. -/
theorem ask_free (c : SshCall) (hc : Ledger.Benign c) (hallow : ∀ μ : Ledger, μ.Allows c)
    (hnext : ∀ (μ : Ledger) r, μ.next ⟨c, r⟩ = μ) :
    Triple H (On used hs k X) (ask c : Remote κ σ _) (fun _ => On used hs k X) E :=
  ask_benign hF c hc (fun μ _ _ => hallow μ) fun μ r hX => by rwa [hnext]

/-! ### Shell commands -/

theorem performShellCmd_on (cmd : Str) :
    Triple H (On used hs k fun μ => μ.Admitted s) (performShellCmd s cmd : Remote κ σ _)
      (fun _ => On used hs k fun μ => μ.Admitted s) fun _ => On used hs k fun μ => μ.Admitted s := by
  -- the channel goes from one stage to the next, its session stays up
  let At (ch : Channel) (stage : ChannelStage) (μ : Ledger) : Prop := μ.Admitted s ∧ μ.channels ch = some (s, stage)
  refine .bind (Q := fun r => On used hs k (Answered (fun ch => At ch .opened) (fun _ => (·.Admitted s)) r))
    (ask_benign hF (.channelSession s) trivial (fun μ _ h => h) fun μ r h => ?_) fun r => ?_
  · cases r with
    | ok ch => exact ⟨h, Function.update_self ..⟩
    | error _ => exact h
  cases r with
  | error e => exact .throw fun st h => h
  | ok ch =>
    refine .bind (Q := fun r => On used hs k (Answered (fun _ => At ch .running) (fun _ => (·.Admitted s)) r))
      (ask_benign hF (.channelExec ch cmd) trivial (fun μ _ h => ⟨s, h.2, h.1⟩) fun μ r h => ?_) fun r => ?_
    · cases r with
      | ok _ => exact ⟨h.1, (Function.update_self ..).trans (by rw [h.2]; rfl)⟩
      | error _ => exact h.1
    cases r with
    | error e => exact .throw fun st h => h
    | ok _ =>
      refine .bind (Q := fun r => On used hs k (Answered (fun _ => At ch .drained) (fun _ => (·.Admitted s)) r))
        (ask_benign hF (.channelReadToString ch) trivial (fun μ _ h => ⟨s, h.2, h.1⟩) fun μ r h => ?_) fun r => ?_
      · cases r with
        | ok _ => exact ⟨h.1, (Function.update_self ..).trans (by rw [h.2]; rfl)⟩
        | error _ => exact h.1
      cases r with
      | error e => exact .throw fun st h => h
      | ok output =>
        refine .bind (Q := fun _ => On used hs k fun μ => μ.Admitted s)
          (ask_benign hF (.channelWaitClose ch) trivial (fun μ _ h => ⟨s, h.2, h.1⟩) fun μ r h => h.1) fun _ =>
            .pure fun st h => h

/-! ### `connect` -/

theorem tryFrom_on (opts : SshOpts) :
    Triple H (On used hs k X) (Config.tryFrom opts : Remote κ σ _)
      (fun _ => On used hs k X) fun _ => On used hs k X := by
  unfold Config.tryFrom
  cases opts.configFile with
  | none => exact .pure fun st h => h
  | some path =>
    refine .bind ?_ fun params => .pure fun st h => h
    refine .bind (ask_free hF (.configOpen path) trivial (fun _ => trivial) fun _ r => by cases r <;> rfl) fun r => ?_
    cases r with
    | error e => exact .throw fun st h => h
    | ok _ =>
      refine .bind (ask_free hF (.configParse path opts.parseRules opts.host) trivial (fun _ => trivial)
        fun _ r => by cases r <;> rfl) fun r => ?_
      cases r with
      | error e => exact .throw fun st h => h
      | ok params => exact .pure fun st h => h

/-- The stream, if there is one, was handed out. -/
def Streamed (stream : Option TcpStream) (μ : Ledger) : Prop := ∀ t, stream = some t → μ.streams t = true

theorem tcpConnect_on (address : SocketAddr) (timeout : Duration) :
    Triple H (On used hs k fun _ => True) (tcpConnect address timeout : Remote κ σ _)
      (fun r => On used hs k (Streamed r.toOption)) E := by
  unfold tcpConnect
  refine .ite (fun _ => ?_) fun _ => ?_
  · refine ask_benign hF (.tcpConnect address) trivial (fun _ _ _ => trivial) fun μ r _ t ht => ?_
    cases r with
    | error _ => cases ht
    | ok stream => cases ht; exact Function.update_self ..
  · refine ask_benign hF (.tcpConnectTimeout address timeout) trivial (fun _ _ _ => trivial) fun μ r _ t ht => ?_
    cases r with
    | error _ => cases ht
    | ok stream => cases ht; exact Function.update_self ..

theorem tryAddresses_on (timeout : Duration) (addrs : List SocketAddr) :
    Triple H (On used hs k fun _ => True) (tryAddresses timeout addrs : Remote κ σ _)
      (fun stream => On used hs k (Streamed stream)) E := by
  induction addrs with
  | nil => exact .pure fun st h => h.imp fun _ _ t ht => by cases ht
  | cons a as ih =>
    refine .bind (tcpConnect_on hF a timeout) fun r => ?_
    cases r with
    | ok stream => exact .pure fun st h => h
    | error _ => exact ih.pre fun st h => h.plain

theorem tryAttempts_on (timeout : Duration) (addrs : List SocketAddr) (n : Nat) :
    Triple H (On used hs k fun _ => True) (tryAttempts timeout addrs n : Remote κ σ _)
      (fun stream => On used hs k (Streamed stream)) E := by
  induction n with
  | zero => exact .pure fun st h => h.imp fun _ _ t ht => by cases ht
  | succ n ih =>
    refine .bind (tryAddresses_on hF timeout addrs) fun r => ?_
    cases r with
    | some stream => exact .pure fun st h => h
    | none => exact ih.pre fun st h => h.plain

/-- A new session is none of those that are held. -/
theorem sessionNew_on (t : TcpStream) :
    Triple H (On used hs k fun μ => μ.streams t = true) (ask .sessionNew : Remote κ σ _)
      (fun r => On used hs k fun μ => ∀ s, r = .ok s → μ.phase s = some .created ∧ μ.streams t = true) E := by
  refine .call fun st h => ?_
  have hafter : protocol.after (asked H .sessionNew st).log =
      (protocol.after st.log).next ⟨.sessionNew, (H.reply .sessionNew st.env).1⟩ := protocol.after_asked
  have hacc : protocol.Accepts (asked H .sessionNew st).log := protocol.accepts_asked h.accepted trivial
  have hkept := hF.kept .sessionNew st.env
  cases hr : (H.reply .sessionNew st.env).1 with
  | error e =>
    rw [hr] at hafter
    have hsame : protocol.after (asked H .sessionNew st).log = protocol.after st.log := hafter
    refine ⟨hacc, fun s hs' => hkept s (h.known s (by rwa [hsame] at hs')), h.self, ?_, fun s hs' => by cases hs'⟩
    rw [hsame]
    exact h.holds
  | ok s =>
    obtain ⟨hnew, hused⟩ := hF.new st.env s hr
    have hnone : (protocol.after st.log).phase s = none := by
      by_contra hs'
      exact hnew (h.known s hs')
    rw [hr] at hafter
    have hphase : ∀ s', s' ≠ s → (protocol.after (asked H .sessionNew st).log).phase s' =
      (protocol.after st.log).phase s' := by
      intro s' hne
      rw [hafter]
      exact Function.update_of_ne hne _ _
    -- what is held has a phase, the new session had none
    have hup : ∀ s', (protocol.after st.log).Admitted s' →
      (protocol.after (asked H .sessionNew st).log).Admitted s' := by
      intro s' hs'
      rw [Ledger.Admitted, hphase s' fun heq => ?_]
      · exact hs'
      · rw [heq, Ledger.Admitted, hnone] at hs'
        cases hs'
    have hsftps : (protocol.after (asked H .sessionNew st).log).sftps =
      (protocol.after st.log).sftps := by rw [hafter]; rfl
    have hstreams : (protocol.after (asked H .sessionNew st).log).streams t = true := by rw [hafter]; exact h.fact
    refine ⟨hacc, fun s' hs' => ?_, h.self, ⟨fun s' hs' => hup s' (h.holds.session s' hs'),
      fun f hf => ?_⟩, fun s' hs' => ?_⟩
    · by_cases hne : s' = s
      · rw [hne]
        exact hused
      · rw [hphase s' hne] at hs'
        exact hkept s' (h.known s' hs')
    · obtain ⟨o, ho, hadmitted⟩ := h.holds.sftp f hf
      exact ⟨o, by rw [hsftps, ho], hup o hadmitted⟩
    · cases hs'
      refine ⟨?_, hstreams⟩
      rw [hafter]
      exact Function.update_self ..

/-- A session goes on to the next phase. -/
theorem ask_advance (c : SshCall) (done : c.Reply → Prop) (hc : c ≠ .sessionNew) {q : SessionPhase}
    (hallow : ∀ μ : Ledger, μ.phase s = some p → μ.Allows c) (hp : p ≠ .admitted ∨ q = .admitted)
    (hnext : ∀ (μ : Ledger) r, (done r → μ.next ⟨c, r⟩ = μ.advance s q) ∧ (¬ done r → μ.next ⟨c, r⟩ = μ)) :
    Triple H (On used hs k fun μ => μ.phase s = some p) (ask c : Remote κ σ _)
      (fun r => On used hs k fun μ => (done r → μ.phase s = some q) ∧ (¬ done r → μ.phase s = some p)) E := by
  refine ask_on hF c hc fun μ hholds hX => ⟨hallow μ hX, fun r => ?_⟩
  obtain ⟨hdone, hnot⟩ := hnext μ r
  by_cases hr : done r
  · rw [hdone hr]
    refine ⟨hholds.advance ?_, fun _ => Ledger.advance_self (by rw [hX]; simp) q, fun h => absurd hr h⟩
    rw [hX]
    exact hp.imp_left fun hne heq => hne (Option.some.inj heq)
  · rw [hnot hr]
    exact ⟨hholds, fun h => absurd h hr, fun _ => hX⟩

theorem methodPref_on (t : SshMethodType) (algos : Str) :
    Triple H (On used hs k fun μ => μ.phase s = some .wired) (methodPref s t algos : Remote κ σ _)
      (fun _ => On used hs k fun μ => μ.phase s = some .wired) fun _ => On used hs k fun μ =>
        μ.phase s = some .wired := by
  refine .bind (ask_phase hF (.methodPref s t algos) trivial fun _ h => h) fun r => ?_
  cases r with
  | error err => exact .throw fun st h => h
  | ok _ => exact .pure fun st h => h

theorem setParam_on (ts : List SshMethodType) (algos : Option (List Str)) :
    Triple H (On used hs k fun μ => μ.phase s = some .wired) (setParam s ts algos : Remote κ σ _)
      (fun _ => On used hs k fun μ => μ.phase s = some .wired) fun _ => On used hs k fun μ =>
        μ.phase s = some .wired := by
  cases algos with
  | none => exact .pure fun st h => h
  | some algos =>
    induction ts with
    | nil => exact .pure fun st h => h
    | cons t ts ih => exact .bind (methodPref_on hF t _) fun _ => ih

theorem setMethods_on (ms : List KeyMethod) :
    Triple H (On used hs k fun μ => μ.phase s = some .wired) (setMethods s ms : Remote κ σ _)
      (fun _ => On used hs k fun μ => μ.phase s = some .wired) fun _ => On used hs k fun μ =>
        μ.phase s = some .wired := by
  induction ms with
  | nil => exact .pure fun st h => h
  | cons m ms ih => exact .bind (methodPref_on hF _ _) fun _ => ih

theorem setAlgoPrefs_on (opts : SshOpts) (config : Config) :
    Triple H (On used hs k fun μ => μ.phase s = some .wired) (setAlgoPrefs s opts config : Remote κ σ _)
      (fun _ => On used hs k fun μ => μ.phase s = some .wired) fun _ => On used hs k fun μ =>
        μ.phase s = some .wired := by
  refine .bind (Q := fun _ => On used hs k fun μ => μ.phase s = some .wired) ?_ fun _ =>
    .bind (setParam_on hF _ _) fun _ =>
    .bind (setParam_on hF _ _) fun _ => .bind (setParam_on hF _ _) fun _ => .bind (setParam_on hF _ _) fun _ =>
      setMethods_on hF _
  cases config.params.compression with
  | none => exact .pure fun st h => h
  | some compress => exact ask_phase hF (.setCompress s compress) trivial fun _ h => h

omit hF in
/-- The rule for a call of the agent. -/
theorem agentCall_on {P : St Ssh κ σ → Prop} {Y : α → Ledger → Prop} {Z : Ledger → Prop}
    {m : Remote κ σ (Except SshError α)}
    (hm : Triple H P m (fun r => On used hs k (Answered Y (fun _ => Z) r)) fun _ => On used hs k Z) :
    Triple H P (agentCall m) (fun a => On used hs k (Y a)) fun _ => On used hs k Z := by
  refine .bind hm fun r => ?_
  cases r with
  | ok a => exact .pure fun st h => h
  | error e => exact .throw fun st h => h

/-- The agent serves `s`, which is in phase `p`. -/
def Asked (s : SshSession) (a : Agent) (p : SessionPhase) (μ : Ledger) : Prop :=
  μ.agents a = some s ∧ μ.phase s = some p

theorem tryIdentities_on (a : Agent) (username : Str) (cfg : SshAgentIdentity)
    (ids : List PublicKey) (e : RemoteError) :
    Triple H (On used hs k (Asked s a .shaken)) (tryIdentities s a username cfg ids (.error e) : Remote κ σ _)
      (fun r => On used hs k (Asked s a (if r = .ok () then .admitted else .shaken))) E := by
  induction ids generalizing e with
  | nil => exact .pure fun st h => h
  | cons identity ids ih =>
    unfold tryIdentities
    refine .ite (fun _ => ?_) fun _ => ih e
    refine .bind (Q := fun r => On used hs k (Answered (fun _ => Asked s a .admitted) (fun _ => Asked s a .shaken) r))
      (ask_on hF (.agentUserauth s a username identity) (by simp) fun μ hholds h =>
        ⟨⟨h.1, h.2⟩, fun r => ?_⟩) fun r => ?_
    · cases r with
      | ok _ =>
        exact ⟨hholds.advance (Or.inr rfl), h.1, Ledger.advance_self (by rw [h.2]; simp) _⟩
      | error _ => exact ⟨hholds, h⟩
    · cases r with
      | ok _ => exact .pure fun st h => h
      | error err => exact ih _

/-- A call that the agent answers without a trace. -/
theorem ask_agent (c : SshCall) (hc : Ledger.Benign c) (a : Agent) (hallow : ∀ μ : Ledger, μ.Serving a → μ.Allows c)
    (hnext : ∀ (μ : Ledger) r, μ.next ⟨c, r⟩ = μ) :
    Triple H (On used hs k (Asked s a .shaken)) (ask c : Remote κ σ _) (fun _ => On used hs k (Asked s a .shaken)) E :=
  ask_benign hF c hc (fun μ _ h => hallow μ ⟨s, h.1, h.2⟩) fun μ r h => by rwa [hnext]

theorem sessionAuthWithAgent_on (username : Str) (cfg : SshAgentIdentity) :
    Triple H (On used hs k fun μ => μ.phase s = some .shaken) (sessionAuthWithAgent s username cfg : Remote κ σ _)
      (fun _ => On used hs k fun μ => μ.Admitted s) fun _ => On used hs k fun μ => μ.phase s = some .shaken := by
  -- a call that fails leaves the session where it was
  have hcall : ∀ {β : Type} {a : Agent} {m : Remote κ σ (Except SshError β)},
      (∀ {E : Option RemoteError → St Ssh κ σ → Prop},
        Triple H (On used hs k (Asked s a .shaken)) m (fun _ => On used hs k (Asked s a .shaken)) E) →
      Triple H (On used hs k (Asked s a .shaken)) (agentCall m) (fun _ => On used hs k (Asked s a .shaken))
        fun _ => On used hs k fun μ => μ.phase s = some .shaken := by
    intro β a m hm
    refine agentCall_on (hm.conseq (fun _ h => h) (fun r st h => ?_) fun _ _ h => h)
    cases r with
    | ok _ => exact h
    | error _ => exact h.imp fun _ h => h.2
  refine .bind (agentCall_on (Y := fun a => Asked s a .shaken) (ask_benign hF (.agent s) trivial (fun μ _ h => h)
    fun μ r h => ?_)) fun a => ?_
  · cases r with
    | ok a => exact ⟨Function.update_self .., h⟩
    | error _ => exact h
  refine .bind (hcall (ask_agent hF (.agentConnect a) trivial a (fun _ h => h) fun _ _ => rfl)) fun _ => ?_
  refine .bind (hcall (ask_agent hF (.agentListIdentities a) trivial a (fun _ h => h) fun _ _ => rfl)) fun _ => ?_
  refine .bind (hcall (ask_agent hF (.agentIdentities a) trivial a (fun _ h => h) fun _ _ => rfl)) fun identities => ?_
  refine .bind (tryIdentities_on hF a username cfg identities _) fun result => ?_
  refine .bind (ask_benign hF (.agentDisconnect a) trivial
    (Y := fun _ => Asked s a (if result = .ok () then .admitted else .shaken))
    (fun μ _ h => ⟨s, h.1, ?_⟩) fun μ r h => h) fun _ => ?_
  · have h := h.2
    split at h
    · exact Or.inr h
    · exact Or.inl h
  · cases result with
    | ok _ => exact .pure fun st h => h.imp fun _ h => h.2
    | error e => exact .throw fun st h => h.imp fun _ h => h.2

/-! ### Keys and passwords -/

/-- A call that may admit the session. -/
theorem ask_credential (c : SshCall) (done : c.Reply → Prop) (hc : c ≠ .sessionNew)
    (hallow : ∀ μ : Ledger, μ.phase s = some .shaken → μ.Allows c) (hnext : ∀ (μ : Ledger) r,
      (done r → μ.next ⟨c, r⟩ = μ.advance s .admitted) ∧ (¬ done r → μ.next ⟨c, r⟩ = μ)) :
    Triple H (On used hs k fun μ => μ.phase s = some .shaken) (ask c : Remote κ σ _)
      (fun r => On used hs k fun μ => (done r → μ.phase s = some .admitted) ∧
        (¬ done r → μ.phase s = some .shaken)) E :=
  ask_advance hF c done hc hallow (Or.inr rfl) hnext

theorem tryKeys_on (username : Str) (password : Option Str) (keys : List PathBuf) :
    Triple H (On used hs k fun μ => μ.phase s = some .shaken) (tryKeys s username password keys : Remote κ σ _)
      (fun _ => On used hs k fun μ => μ.Admitted s) fun _ => On used hs k fun μ => μ.phase s = some .shaken := by
  induction keys with
  | nil => exact .throw fun st h => h
  | cons key keys ih =>
    refine .bind (ask_credential hF (.userauthPubkeyFile s username key password) (· = .ok ()) (by simp) (fun _ h => h)
      fun μ r => ?_) fun r => ?_
    · cases r with
      | ok _ => exact ⟨fun _ => rfl, fun h => absurd rfl h⟩
      | error _ => exact ⟨fun h => (by cases h), fun _ => rfl⟩
    · cases r with
      | ok _ => exact .pure fun st h => h.imp fun _ h => h.1 rfl
      | error _ => exact ih.pre fun st h => h.imp fun _ h => h.2 (by simp)

theorem sessionAuthWithPassword_on (username : Str) (password : Option Str) :
    Triple H (On used hs k fun μ => μ.phase s = some .shaken)
      (sessionAuthWithPassword s username password : Remote κ σ _)
      (fun _ => On used hs k fun μ => μ.Admitted s) fun _ => On used hs k fun μ => μ.phase s = some .shaken := by
  refine .bind (ask_credential hF (.userauthPassword s username (password.getD [])) (· = .ok ())
    (by simp) (fun _ h => h)
    fun μ r => ?_) fun r => ?_
  · cases r with
    | ok _ => exact ⟨fun _ => rfl, fun h => absurd rfl h⟩
    | error _ => exact ⟨fun h => (by cases h), fun _ => rfl⟩
  · cases r with
    | ok _ => exact .pure fun st h => h.imp fun _ h => h.1 rfl
    | error _ => exact .throw fun st h => h.imp fun _ h => h.2 (by simp)

theorem sessionAuth_on (opts : SshOpts) (config : Config) :
    Triple H (On used hs k fun μ => μ.phase s = some .shaken) (sessionAuth s opts config : Remote κ σ _)
      (fun _ => On used hs k fun μ => μ.Admitted s) fun _ => On used hs k fun μ => μ.phase s = some .shaken := by
  refine .bind (ask_credential hF (.authenticated s) (· = true) (by simp)
    (fun _ h => Or.inl h) fun μ r => ?_) fun r => ?_
  · cases r with
    | true => exact ⟨fun _ => rfl, fun h => absurd rfl h⟩
    | false => exact ⟨fun h => (by cases h), fun _ => rfl⟩
  · refine .ite (fun hr => .pure fun st h => h.imp fun _ h => h.1 hr) fun hr => ?_
    have hpre : ∀ st : St Ssh κ σ, On used hs k (fun μ => (r = true → μ.phase s = some .admitted) ∧
        (¬ r = true → μ.phase s = some .shaken)) st → On used hs k (fun μ => μ.phase s = some .shaken) st :=
      fun st h => h.imp fun _ h => h.2 hr
    cases resolveKey opts config with
    | some rsaKey => exact (tryKeys_on hF _ _ _).pre hpre
    | none => exact (sessionAuthWithPassword_on hF _ _).pre hpre

theorem authenticate_on (opts : SshOpts) (config : Config) :
    Triple H (On used hs k fun μ => μ.phase s = some .shaken) (authenticate s opts config : Remote κ σ _)
      (fun _ => On used hs k fun μ => μ.Admitted s) fun _ => On used hs k fun μ => μ.phase s = some .shaken := by
  unfold authenticate
  cases opts.sshAgentIdentity with
  | none => exact sessionAuth_on hF opts config
  | some cfg =>
    refine .bind (Q := fun r => On used hs k
        (Answered (fun _ => (·.Admitted s)) (fun _ => fun μ => μ.phase s = some .shaken) r))
      (.attempt (sessionAuthWithAgent_on hF config.username cfg) (fun e st h => h) fun st h => h) fun r => ?_
    cases r with
    | ok _ => exact .pure fun st h => h
    | error _ => exact sessionAuth_on hF opts config

/-- **A session that `connect` returns is admitted**, and every call on the way kept to the protocol. -/
theorem connect_on (opts : SshOpts) :
    Triple H (On used hs k fun _ => True) (RemotefsSsh.connect opts : Remote κ σ _)
      (fun s => On used hs k fun μ => μ.Admitted s) fun _ => On used hs k fun _ => True := by
  refine .bind (tryFrom_on hF opts) fun config => ?_
  refine .bind (ask_free hF (.toSocketAddrs config.address) trivial (fun _ => trivial) fun _ r => by cases r <;> rfl)
    fun r => ?_
  cases r with
  | error err => exact .throw fun st h => h
  | ok addrs =>
    refine .bind (tryAttempts_on hF _ _ _) fun stream => ?_
    cases stream with
    | none => exact .throw fun st h => h.plain
    | some t =>
      refine .bind ((sessionNew_on hF t).pre fun st h => h.imp fun _ h => h t rfl) fun r => ?_
      cases r with
      | error err => exact .throw fun st h => h.plain
      | ok s =>
        refine .bind (Q := fun _ => On used hs k fun μ => μ.phase s = some .wired) ?_ fun _ => ?_
        · refine ask_on hF (.setTcpStream s t) (by simp) fun μ hholds h => ?_
          obtain ⟨hphase, hstream⟩ := h s rfl
          refine ⟨⟨hphase, hstream⟩, fun _ => ⟨hholds.advance (Or.inl ?_), Ledger.advance_self ?_ _⟩⟩
          · rw [hphase]
            simp
          · rw [hphase]
            simp
        refine .bind ((setAlgoPrefs_on hF opts config).conseq (fun _ h => h)
          (fun _ _ h => h) fun _ _ h => h.plain) fun _ => ?_
        refine .bind (ask_advance hF (.handshake s) (· = .ok ()) (by simp) (fun _ h => h)
          (Or.inl (by simp)) (q := .shaken)
          fun μ r => ?_) fun r => ?_
        · cases r with
          | ok _ => exact ⟨fun _ => rfl, fun h => absurd rfl h⟩
          | error _ => exact ⟨fun h => (by cases h), fun _ => rfl⟩
        · cases r with
          | error err => exact .throw fun st h => h.plain
          | ok _ =>
            refine .bind (((authenticate_on hF opts config).pre fun st h => h.imp fun _ h =>
              h.1 rfl).conseq (fun _ h => h)
              (fun _ _ h => h) fun _ _ h => h.plain) fun _ => .pure fun st h => h

end

end RemotefsSsh
