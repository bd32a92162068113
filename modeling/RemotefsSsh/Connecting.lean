import RemotefsSsh.Authenticate
import RemotefsSsh.Lib.Hoare
import RemotefsSsh.Lib.Tries

/-!
# How `connect` ends (ssh/commons.rs:21-301, ssh/config.rs)

`connect` reads the configuration, resolves the address, tries the addresses it got, all of them as often as the
configuration says, and sets up a session on the stream of the first that answers. Then it offers credentials on this
session: the identities of the agent that match, then the keys, or else the password, each once and in this order, until
one is accepted. A `connect` that gives up before has offered nothing, and its error tells where it gave up
(`connect_ends`).
-/

namespace RemotefsSsh

open Utf8 UnixPath Effect Prog Tries

/-! ## What the calls tell -/

/-- A call and its answer. -/
abbrev Exchange := Sigma SshCall.Reply

/-- The call was made, and answered so. -/
def Heard (c : SshCall) (r : c.Reply) (es : List Exchange) : Prop := (⟨c, r⟩ : Exchange) ∈ es

/-- An address that is dialled, and for how long. -/
structure Dial where
  address : SocketAddr
  timeout : Option Duration
deriving DecidableEq

def dialled? : Exchange → Option (Dial × Option TcpStream)
  | ⟨.tcpConnect address, r⟩ => some (⟨address, none⟩, r.toOption)
  | ⟨.tcpConnectTimeout address timeout, r⟩ => some (⟨address, some timeout⟩, r.toOption)
  | _ => none

/-- A credential that is offered on a session. -/
def offered? : Exchange → Option ((SshSession × Credential) × Option Unit)
  | ⟨.agentUserauth s _ username identity, r⟩ => some ((s, .identity username identity), r.toOption)
  | ⟨.userauthPubkeyFile s username privateKey passphrase, r⟩ =>
    some ((s, .keyFile username privateKey passphrase), r.toOption)
  | ⟨.userauthPassword s username password, r⟩ => some ((s, .password username password), r.toOption)
  | _ => none

/-- What the agent says it holds. -/
def agentTold? : Exchange → Option (Agent × List PublicKey)
  | ⟨.agentIdentities agent, .ok ids⟩ => some (agent, ids)
  | _ => none

/-- An answer at which the agent is given up. -/
def givesUp : Exchange → Bool
  | ⟨.agent _, .error _⟩ | ⟨.agentConnect _, .error _⟩ | ⟨.agentListIdentities _, .error _⟩ |
    ⟨.agentIdentities _, .error _⟩ => true
  | _ => false

def dialled (es : List Exchange) : List (Dial × Option TcpStream) := es.filterMap dialled?

def offered (es : List Exchange) : List ((SshSession × Credential) × Option Unit) := es.filterMap offered?

def agentTold (es : List Exchange) : List (Agent × List PublicKey) := es.filterMap agentTold?

/-! ## What is planned -/

/-- The configuration that `connect` works with. -/
inductive Resolves (opts : SshOpts) (es : List Exchange) : Config → Prop
  | plain : opts.configFile = none → Resolves opts es (.fromParams .default opts)
  | file {path : PathBuf} {params : HostParams} : opts.configFile = some path →
      Heard (.configParse path opts.parseRules opts.host) (.ok params) es → Resolves opts es (.fromParams params opts)

/-- No timeout when it is zero. -/
def Dial.of (timeout : Duration) (address : SocketAddr) : Dial :=
  ⟨address, if timeout.isZero then none else some timeout⟩

/-- All addresses, and all of them again for each further attempt. -/
def dialPlan (config : Config) (addrs : List SocketAddr) : List Dial :=
  (List.replicate config.connectionAttempts (addrs.map (.of config.connectionTimeout))).flatten

def agentPlan (opts : SshOpts) (config : Config) (ids : List PublicKey) : List Credential :=
  match opts.sshAgentIdentity with
  | some cfg => (ids.filter fun identity => cfg.pubkeyMatches identity.blob).map (.identity config.username)
  | none => []

def keyPlan (opts : SshOpts) (config : Config) : List Credential :=
  match resolveKey opts config with
  | some key => (key :: config.params.identityFile.getD []).map fun path => .keyFile config.username path opts.password
  | none => [.password config.username (opts.password.getD [])]

def on (session : SshSession) (plan : List Credential) : List (SshSession × Credential) :=
  plan.map fun c => (session, c)

/-- The identities that the agent of the session told of, once. There are none where the options have no agent, and
where it was given up before it told. -/
inductive Held (opts : SshOpts) (session : SshSession) (es : List Exchange) : List PublicKey → Prop
  | answered {agent : Agent} {ids : List PublicKey} : Heard (.agent session) (.ok agent) es →
      agentTold es = [(agent, ids)] → Held opts session es ids
  | unset : opts.sshAgentIdentity = none → agentTold es = [] → Held opts session es []
  | mute {e : Exchange} : e ∈ es → givesUp e = true → agentTold es = [] → Held opts session es []

/-- The stream comes from the first address that answered. -/
structure Reached (opts : SshOpts) (config : Config) (stream : TcpStream) (es : List Exchange) : Prop where
  resolves : Resolves opts es config
  dialled : ∃ addrs, Heard (.toSocketAddrs config.address) (.ok addrs) es ∧
    Hit (dialPlan config addrs) stream (dialled es)

/-- The session runs over this stream. -/
structure Wired (opts : SshOpts) (config : Config) (session : SshSession) (es : List Exchange) : Prop where
  reached : ∃ stream, Reached opts config stream es ∧ Heard (.setTcpStream session stream) () es
  made : Heard .sessionNew (.ok session) es

structure Shaken (opts : SshOpts) (config : Config) (session : SshSession) (es : List Exchange) : Prop
    extends Wired opts config session es where
  shaken : Heard (.handshake session) (.ok ()) es

inductive Ending (opts : SshOpts) (es : List Exchange) : Out RemoteError SshSession → Prop
  /-- The configuration file could not be read. -/
  | unread {e : RemoteError} : opts.configFile ≠ none → e.kind = .ioError → dialled es = [] → offered es = [] →
      Ending opts es (.err e)
  /-- The address has no meaning. -/
  | nowhere {config : Config} {text : Str} : Resolves opts es config →
      Heard (.toSocketAddrs config.address) (.error text) es → dialled es = [] → offered es = [] →
      Ending opts es (.err (.newEx .badAddress text))
  /-- No address answered. -/
  | unreached {config : Config} {addrs : List SocketAddr} : Resolves opts es config →
      Heard (.toSocketAddrs config.address) (.ok addrs) es → dialled es = failed (dialPlan config addrs) →
      offered es = [] → Ending opts es (.err (.newEx .connectionError "connection timeout".toList))
  | noSession {config : Config} {stream : TcpStream} {err : SshError} :
      Reached opts config stream es → offered es = [] →
      Ending opts es (.err (.newEx .connectionError err.display))
  /-- A preference or the handshake was refused. -/
  | unfit {config : Config} {session : SshSession} {e : RemoteError} : Wired opts config session es → offered es = [] →
      e.kind = .protocolError → Ending opts es (.err e)
  /-- All that could be offered was, in vain. -/
  | refused {config : Config} {session : SshSession} {ids : List PublicKey} {e : RemoteError} :
      Shaken opts config session es →
      Held opts session es ids → offered es = failed (on session (agentPlan opts config ids ++ keyPlan opts config)) →
      e.kind = .authenticationFailed → Ending opts es (.err e)
  /-- Something was accepted, and nothing was offered behind it. -/
  | accepted {config : Config} {session : SshSession} {ids : List PublicKey} : Shaken opts config session es →
      Held opts session es ids → Hit (on session (agentPlan opts config ids ++ keyPlan opts config)) () (offered es) →
      Ending opts es (.ok session)
  /-- The session was authenticated all the same. -/
  | already {config : Config} {session : SshSession} {ids : List PublicKey} : Shaken opts config session es →
      Held opts session es ids → offered es = failed (on session (agentPlan opts config ids)) →
      Heard (.authenticated session) true es →
      Ending opts es (.ok session)

/-! ## Dialling -/

section
variable {κ σ : Type} {H : Handler Ssh σ} {log₀ : List Exchange} {opts : SshOpts} {config : Config}
  {E : Option RemoteError → St Ssh κ σ → Prop}

/-- It ends with an error, and the calls say so. -/
def FailsAs (log₀ : List Exchange) (opts : SshOpts) (e : Option RemoteError) (st : St Ssh κ σ) : Prop :=
  ∃ err, e = some err ∧ Since log₀ (fun es => Ending opts es (.err err)) st

theorem dialled_snoc (es : List Exchange) (e : Exchange) : dialled (es ++ [e]) = dialled es ++ (dialled? e).toList := by
  unfold dialled
  rw [List.filterMap_append]
  cases h : dialled? e <;> simp [h]

theorem offered_snoc (es : List Exchange) (e : Exchange) : offered (es ++ [e]) = offered es ++ (offered? e).toList := by
  unfold offered
  rw [List.filterMap_append]
  cases h : offered? e <;> simp [h]

theorem agentTold_snoc (es : List Exchange) (e : Exchange) :
    agentTold (es ++ [e]) = agentTold es ++ (agentTold? e).toList := by
  unfold agentTold
  rw [List.filterMap_append]
  cases h : agentTold? e <;> simp [h]

theorem Heard.snoc {c : SshCall} {r : c.Reply} {es : List Exchange} (h : Heard c r es) (e : Exchange) :
    Heard c r (es ++ [e]) :=
  List.mem_append_left _ h

theorem heard_last (c : SshCall) (r : c.Reply) (es : List Exchange) : Heard c r (es ++ [⟨c, r⟩]) :=
  List.mem_append_right _ List.mem_cons_self

theorem Resolves.snoc {es : List Exchange} (h : Resolves opts es config) (e : Exchange) :
    Resolves opts (es ++ [e]) config := by
  cases h with
  | plain hnone => exact .plain hnone
  | file hfile hparams => exact .file hfile (hparams.snoc e)

/-- Nothing was offered, and the agent told nothing. -/
structure Silence (es : List Exchange) : Prop where
  offered : offered es = []
  told : agentTold es = []

theorem Silence.snoc {es : List Exchange} (h : Silence es) {e : Exchange} (ho : offered? e = none)
    (ht : agentTold? e = none) :
    Silence (es ++ [e]) :=
  ⟨by rw [offered_snoc, h.offered, ho]; rfl, by rw [agentTold_snoc, h.told, ht]; rfl⟩

/-- Nor was anything dialled. -/
structure Still (es : List Exchange) : Prop extends Silence es where
  dialled : dialled es = []

theorem Still.snoc {es : List Exchange} (h : Still es) {e : Exchange} (hd : dialled? e = none) (ho : offered? e = none)
    (ht : agentTold? e = none) : Still (es ++ [e]) :=
  ⟨h.toSilence.snoc ho ht, by rw [dialled_snoc, h.dialled, hd]; rfl⟩

theorem tryFrom_tells (opts : SshOpts) :
    Triple H (Since log₀ (· = [])) (Config.tryFrom opts : Remote κ σ _)
      (fun config => Since log₀ fun es : List Exchange => Still es ∧ Resolves opts es config) (FailsAs log₀ opts) := by
  unfold Config.tryFrom
  cases hfile : opts.configFile with
  | none =>
    refine .pure fun st h => h.imp ?_
    rintro es rfl
    exact ⟨⟨⟨rfl, rfl⟩, rfl⟩, .plain hfile⟩
  | some path =>
    have hends : ∀ (text : Str) (st : St Ssh κ σ), Since log₀ Still st →
      FailsAs log₀ opts (some (.newEx .ioError text)) st := by
      intro text st h
      exact ⟨_, rfl, h.imp fun es hes => .unread (by simp [hfile]) rfl hes.dialled hes.offered⟩
    refine .bind (Q := fun params => Since log₀ fun es => Still es ∧
        Heard (.configParse path opts.parseRules opts.host) (.ok params) es) ?_ fun params => .pure fun st h =>
          h.imp fun es hes =>
      ⟨hes.1, .file hfile hes.2⟩
    refine .bind (Q := fun _ => Since log₀ Still) (.call_since ?_) fun r => ?_
    · rintro es r rfl
      exact Still.snoc ⟨⟨rfl, rfl⟩, rfl⟩ rfl rfl rfl
    · cases r with
      | error e => exact .throw (hends _)
      | ok _ =>
        refine .bind (Q := fun r => Since log₀ fun es => Still es ∧
          Heard (.configParse path opts.parseRules opts.host) r es)
          (.call_since fun es r h => ⟨h.snoc rfl rfl rfl, heard_last ..⟩) fun r => ?_
        cases r with
        | error e => exact .throw fun st h => hends _ _ (h.imp fun _ hes => hes.1)
        | ok params => exact .pure fun st h => h

/-- These were dialled so far. -/
structure Dialling (opts : SshOpts) (config : Config) (addrs : List SocketAddr) (ts : List (Dial × Option TcpStream))
    (es : List Exchange) : Prop where
  resolves : Resolves opts es config
  resolved : Heard (.toSocketAddrs config.address) (.ok addrs) es
  dialled : dialled es = ts
  silence : Silence es

variable {addrs : List SocketAddr} {ts : List (Dial × Option TcpStream)}

theorem Dialling.snoc {es : List Exchange} (h : Dialling opts config addrs ts es) (e : Exchange)
    (ho : offered? e = none)
    (ht : agentTold? e = none) : Dialling opts config addrs (ts ++ (dialled? e).toList) (es ++ [e]) where
  resolves := h.resolves.snoc e
  resolved := h.resolved.snoc e
  dialled := by rw [dialled_snoc, h.dialled]
  silence := h.silence.snoc ho ht

theorem tcpConnect_tells (address : SocketAddr) (timeout : Duration) :
    Triple H (Since log₀ (Dialling opts config addrs ts)) (tcpConnect address timeout : Remote κ σ _)
      (fun r => Since log₀ (Dialling opts config addrs (ts ++ [(.of timeout address, r.toOption)]))) E := by
  unfold tcpConnect Dial.of
  by_cases hzero : timeout.isZero = true
  · rw [if_pos hzero, if_pos hzero]
    exact .call_since fun es r h => h.snoc ⟨.tcpConnect address, r⟩ rfl rfl
  · rw [if_neg hzero, if_neg hzero]
    exact .call_since fun es r h => h.snoc ⟨.tcpConnectTimeout address timeout, r⟩ rfl rfl

/-- The plan was gone through, behind what was dialled before. -/
def Went (opts : SshOpts) (config : Config) (addrs : List SocketAddr)
    (ts : List (Dial × Option TcpStream)) (plan : List Dial)
    (stream : Option TcpStream) (es : List Exchange) : Prop :=
  ∃ us, Dialling opts config addrs (ts ++ us) es ∧ Through plan stream us

theorem tryAddresses_tells (timeout : Duration) (as : List SocketAddr) :
    Triple H (Since log₀ (Dialling opts config addrs ts)) (tryAddresses timeout as : Remote κ σ _)
      (fun stream => Since log₀ (Went opts config addrs ts (as.map (.of timeout)) stream)) E := by
  induction as generalizing ts with
  | nil => exact .pure fun st h => h.imp fun es hes => ⟨[], by rwa [List.append_nil], through_nil⟩
  | cons a as ih =>
    refine .bind (tcpConnect_tells a timeout) fun r => ?_
    cases r with
    | ok stream => exact .pure fun st h => h.imp fun es hes => ⟨_, hes, hit_head _ _ _⟩
    | error _ =>
      refine ih.conseq (fun _ h => h) (fun stream st h => h.imp ?_) fun _ _ h => h
      rintro es ⟨us, hes, hus⟩
      exact ⟨_, by rwa [List.append_assoc] at hes, hus.head⟩

theorem tryAttempts_tells (timeout : Duration) (as : List SocketAddr) (n : Nat) :
    Triple H (Since log₀ (Dialling opts config addrs ts)) (tryAttempts timeout as n : Remote κ σ _)
      (fun stream => Since log₀ (Went opts config addrs ts
        (List.replicate n (as.map (.of timeout))).flatten stream)) E := by
  induction n generalizing ts with
  | zero => exact .pure fun st h => h.imp fun es hes => ⟨[], by rwa [List.append_nil], through_nil⟩
  | succ n ih =>
    rw [List.replicate_succ, List.flatten_cons]
    refine .bind (tryAddresses_tells timeout as) fun r => ?_
    cases r with
    | some stream =>
      refine .pure fun st h => h.imp ?_
      rintro es ⟨us, hes, hus⟩
      exact ⟨us, hes, Hit.append hus _⟩
    | none =>
      have hstep : ∀ us, Through (as.map (.of timeout)) none us →
          Triple H (Since log₀ (Dialling opts config addrs (ts ++ us))) (tryAttempts timeout as n : Remote κ σ _)
            (fun stream => Since log₀ (Went opts config addrs ts
              (as.map (.of timeout) ++ (List.replicate n (as.map (.of timeout))).flatten) stream)) E := by
        intro us hus
        refine ih.conseq (fun _ h => h) (fun stream st h => h.imp ?_) fun _ _ h => h
        rintro es ⟨vs, hes, hvs⟩
        exact ⟨us ++ vs, by rwa [List.append_assoc] at hes, hus.then hvs⟩
      refine Triple.pre (.exists_pre fun us => .given (hstep us)) fun st h => ?_
      obtain ⟨es, hlog, us, hes, hus⟩ := h
      exact ⟨us, hus, es, hlog, hes⟩

/-! ## Setting up the session, and logging in -/

/-- The session is being set up. -/
structure Fitting (opts : SshOpts) (config : Config) (session : SshSession) (es : List Exchange) : Prop where
  wired : Wired opts config session es
  silence : Silence es

/-- The session is set up, and the agent may be asked. -/
structure Ready (opts : SshOpts) (config : Config) (session : SshSession) (es : List Exchange) : Prop where
  shaken : Shaken opts config session es
  silence : Silence es

/-- The session is set up, the agent told of `ids`, and these were offered so far. -/
structure Offering (opts : SshOpts) (config : Config) (session : SshSession) (ids : List PublicKey)
    (ts : List ((SshSession × Credential) × Option Unit)) (es : List Exchange) : Prop where
  shaken : Shaken opts config session es
  held : Held opts session es ids
  offered : offered es = ts

variable {session : SshSession} {ids : List PublicKey} {us : List ((SshSession × Credential) × Option Unit)}

theorem Wired.snoc {es : List Exchange} (h : Wired opts config session es) {e : Exchange} (hd : dialled? e = none) :
    Wired opts config session (es ++ [e]) := by
  obtain ⟨⟨stream, ⟨hres, addrs, hresolved, hhit⟩, hstream⟩, hmade⟩ := h
  refine ⟨⟨stream, ⟨hres.snoc e, addrs, hresolved.snoc e, ?_⟩, hstream.snoc e⟩, hmade.snoc e⟩
  rwa [dialled_snoc, hd, Option.toList_none, List.append_nil]

theorem Shaken.snoc {es : List Exchange} (h : Shaken opts config session es) {e : Exchange} (hd : dialled? e = none) :
    Shaken opts config session (es ++ [e]) :=
  ⟨h.toWired.snoc hd, h.shaken.snoc e⟩

theorem Ready.snoc {es : List Exchange} (h : Ready opts config session es) {e : Exchange} (hd : dialled? e = none)
    (ho : offered? e = none) (ht : agentTold? e = none) : Ready opts config session (es ++ [e]) :=
  ⟨h.shaken.snoc hd, h.silence.snoc ho ht⟩

theorem Held.snoc {es : List Exchange} (h : Held opts session es ids) {e : Exchange} (ht : agentTold? e = none) :
    Held opts session (es ++ [e]) ids := by
  have htold : agentTold (es ++ [e]) = agentTold es := by rw [agentTold_snoc, ht, Option.toList_none, List.append_nil]
  cases h with
  | answered hagent hids => exact .answered (hagent.snoc e) (htold.trans hids)
  | unset hnone hids => exact .unset hnone (htold.trans hids)
  | mute hmem hgives hids => exact .mute (List.mem_append_left _ hmem) hgives (htold.trans hids)

theorem Offering.snoc {es : List Exchange} (h : Offering opts config session ids us es) (e : Exchange)
    (hd : dialled? e = none) (ht : agentTold? e = none) :
    Offering opts config session ids (us ++ (offered? e).toList) (es ++ [e]) :=
  ⟨h.shaken.snoc hd, h.held.snoc ht, by rw [offered_snoc, h.offered]⟩

/-- A call that offers nothing. -/
theorem Offering.aside {es : List Exchange} (h : Offering opts config session ids us es) {e : Exchange}
    (hd : dialled? e = none)
    (ho : offered? e = none) (ht : agentTold? e = none) : Offering opts config session ids us (es ++ [e]) := by
  have hsnoc := h.snoc e hd ht
  rwa [ho, Option.toList_none, List.append_nil] at hsnoc

theorem offer_tells (c : SshCall) {cred : Credential} {o : c.Reply → Option Unit} (hd : ∀ r, dialled? ⟨c, r⟩ = none)
    (ht : ∀ r, agentTold? ⟨c, r⟩ = none) (ho : ∀ r, offered? ⟨c, r⟩ = some ((session, cred), o r)) :
    Triple H (Since log₀ (Offering opts config session ids us)) (ask c : Remote κ σ _)
      (fun r => Since log₀ (Offering opts config session ids (us ++ [((session, cred), o r)]))) E := by
  refine .call_since fun es r h => ?_
  have hsnoc := h.snoc ⟨c, r⟩ (hd r) (ht r)
  rwa [ho] at hsnoc

theorem Fitting.snoc {es : List Exchange} (h : Fitting opts config session es) {e : Exchange} (hd : dialled? e = none)
    (ho : offered? e = none) (ht : agentTold? e = none) : Fitting opts config session (es ++ [e]) :=
  ⟨h.wired.snoc hd, h.silence.snoc ho ht⟩

/-- It is a protocol error, and nothing was offered. -/
def Unfit (log₀ : List Exchange) (opts : SshOpts) (config : Config) (session : SshSession) (e : Option RemoteError)
    (st : St Ssh κ σ) : Prop :=
  ∃ err, e = some err ∧ err.kind = .protocolError ∧ Since log₀ (Fitting opts config session) st

theorem methodPref_tells (t : SshMethodType) (algos : Str) :
    Triple H (Since log₀ (Fitting opts config session)) (methodPref session t algos : Remote κ σ _)
      (fun _ => Since log₀ (Fitting opts config session)) (Unfit log₀ opts config session) := by
  refine .bind (Q := fun _ => Since log₀ (Fitting opts config session)) (.call_since fun es r h => h.snoc rfl rfl rfl)
    fun r => ?_
  cases r with
  | error err => exact .throw fun st h => ⟨_, rfl, rfl, h⟩
  | ok _ => exact .pure fun st h => h

theorem setParam_tells (types : List SshMethodType) (algos : Option (List Str)) :
    Triple H (Since log₀ (Fitting opts config session)) (setParam session types algos : Remote κ σ _)
      (fun _ => Since log₀ (Fitting opts config session)) (Unfit log₀ opts config session) := by
  cases algos with
  | none => exact .pure fun st h => h
  | some algos =>
    induction types with
    | nil => exact .pure fun st h => h
    | cons t types ih => exact .bind (methodPref_tells t _) fun _ => ih

theorem setMethods_tells (ms : List KeyMethod) :
    Triple H (Since log₀ (Fitting opts config session)) (setMethods session ms : Remote κ σ _)
      (fun _ => Since log₀ (Fitting opts config session)) (Unfit log₀ opts config session) := by
  induction ms with
  | nil => exact .pure fun st h => h
  | cons m ms ih => exact .bind (methodPref_tells _ _) fun _ => ih

theorem setAlgoPrefs_tells (opts' : SshOpts) (config' : Config) :
    Triple H (Since log₀ (Fitting opts config session)) (setAlgoPrefs session opts' config' : Remote κ σ _)
      (fun _ => Since log₀ (Fitting opts config session)) (Unfit log₀ opts config session) := by
  refine .bind (Q := fun _ => Since log₀ (Fitting opts config session)) ?_ fun _ => .bind (setParam_tells _ _) fun _ =>
    .bind (setParam_tells _ _) fun _ => .bind (setParam_tells _ _) fun _ => .bind (setParam_tells _ _) fun _ =>
      setMethods_tells _
  cases config'.params.compression with
  | none => exact .pure fun st h => h
  | some compress => exact .call_since fun es r h => h.snoc rfl rfl rfl

/-- The plan was gone through, behind what was offered before. -/
def Offered (opts : SshOpts) (config : Config) (session : SshSession) (ids : List PublicKey)
    (us : List ((SshSession × Credential) × Option Unit)) (plan : List Credential) (accepted : Option Unit)
    (es : List Exchange) : Prop :=
  ∃ vs, Offering opts config session ids (us ++ vs) es ∧ Through (on session plan) accepted vs

/-- An offer, and what comes behind it when it is refused. -/
theorem Offered.behind {plan : List Credential} {cred : Credential} {accepted : Option Unit} {es : List Exchange}
    (h : Offered opts config session ids (us ++ [((session, cred), none)]) plan accepted es) :
    Offered opts config session ids us (cred :: plan) accepted es := by
  obtain ⟨vs, hes, hvs⟩ := h
  exact ⟨_, by rwa [List.append_assoc] at hes, hvs.head⟩

theorem tryIdentities_tells (agent : Agent) (cfg : SshAgentIdentity) (identities : List PublicKey) (e : RemoteError) :
    Triple H (Since log₀ (Offering opts config session ids us))
      (tryIdentities session agent config.username cfg identities (.error e) : Remote κ σ _)
      (fun r => Since log₀ (Offered opts config session ids us
        ((identities.filter fun identity => cfg.pubkeyMatches identity.blob).map
          (.identity config.username)) r.toOption))
          E := by
  induction identities generalizing us e with
  | nil => exact .pure fun st h => h.imp fun es hes => ⟨[], by rwa [List.append_nil], through_nil⟩
  | cons identity identities ih =>
    unfold tryIdentities
    by_cases hmatch : cfg.pubkeyMatches identity.blob = true
    · have hfilter : (identity :: identities).filter (fun identity => cfg.pubkeyMatches identity.blob) =
          identity :: identities.filter fun identity => cfg.pubkeyMatches identity.blob :=
            List.filter_cons_of_pos hmatch
      rw [if_pos hmatch, hfilter, List.map_cons]
      refine .bind (offer_tells (.agentUserauth session agent config.username identity)
        (o := Except.toOption) (fun _ => rfl)
        (fun _ => rfl) fun _ => rfl) fun r => ?_
      cases r with
      | ok u => exact .pure fun st h => h.imp fun es hes => ⟨_, hes, hit_head _ _ _⟩
      | error err => exact (ih _).conseq (fun _ h => h) (fun _ _ h => h.imp fun es hes => hes.behind) fun _ _ h => h
    · have hfilter : (identity :: identities).filter (fun identity => cfg.pubkeyMatches identity.blob) =
          identities.filter fun identity => cfg.pubkeyMatches identity.blob := List.filter_cons_of_neg hmatch
      rw [if_neg hmatch, hfilter]
      exact ih e

theorem tryKeys_tells (keys : List PathBuf) :
    Triple H (Since log₀ (Offering opts config session ids us))
      (tryKeys session config.username opts.password keys : Remote κ σ _)
      (fun _ => Since log₀ (Offered opts config session ids us
        (keys.map fun path => .keyFile config.username path opts.password) (some ())))
      fun e st => ∃ err, e = some err ∧ err.kind = .authenticationFailed ∧
        Since log₀ (Offered opts config session ids us
        (keys.map fun path => .keyFile config.username path opts.password) none) st := by
  induction keys generalizing us with
  | nil =>
    refine .throw fun st h => ⟨_, rfl, rfl, h.imp fun es hes => ⟨[], by rwa [List.append_nil], through_nil⟩⟩
  | cons key keys ih =>
    refine .bind (offer_tells (.userauthPubkeyFile session config.username key opts.password) (o := Except.toOption)
      (fun _ => rfl) (fun _ => rfl) fun _ => rfl) fun r => ?_
    cases r with
    | ok _ => exact .pure fun st h => h.imp fun es hes => ⟨_, hes, hit_head _ _ _⟩
    | error _ =>
      refine ih.conseq (fun _ h => h) (fun _ _ h => h.imp fun es hes => hes.behind) fun e st h => ?_
      obtain ⟨err, he, hkind, h⟩ := h
      exact ⟨err, he, hkind, h.imp fun es hes => hes.behind⟩

theorem Offered.aside {plan : List Credential} {accepted : Option Unit} {es : List Exchange} {e : Exchange}
    (h : Offered opts config session ids us plan accepted es) (hd : dialled? e = none) (ho : offered? e = none)
    (ht : agentTold? e = none) : Offered opts config session ids us plan accepted (es ++ [e]) :=
  h.imp fun _ h => ⟨h.1.aside hd ho ht, h.2⟩

/-- What the agent holds was offered, and refused. -/
def InVain (opts : SshOpts) (config : Config) (session : SshSession) (es : List Exchange) : Prop :=
  ∃ ids, Offering opts config session ids (failed (on session (agentPlan opts config ids))) es

theorem agentPlan_nil (opts : SshOpts) (config : Config) : agentPlan opts config [] = [] := by
  unfold agentPlan
  cases opts.sshAgentIdentity <;> rfl

/-- Where the agent holds nothing, there is nothing to refuse. -/
theorem Ready.inVain {es : List Exchange} (h : Ready opts config session es) (hheld : Held opts session es []) :
    InVain opts config session es := by
  refine ⟨[], h.shaken, hheld, ?_⟩
  rw [agentPlan_nil, h.silence.offered]
  rfl

/-- The agent is given up. -/
theorem Ready.mute {es : List Exchange} (h : Ready opts config session es) {e : Exchange} (hd : dialled? e = none)
    (ho : offered? e = none) (ht : agentTold? e = none) (he : givesUp e = true) :
    InVain opts config session (es ++ [e]) := by
  have hsnoc := h.snoc hd ho ht
  exact hsnoc.inVain (.mute (List.mem_append_right _ List.mem_cons_self) he hsnoc.silence.told)

theorem agentCall_tells {α : Type} {P : St Ssh κ σ → Prop} {Q : α → List Exchange → Prop} {Z : List Exchange → Prop}
    {m : Remote κ σ (Except SshError α)}
    (hm : ∀ {E}, Triple H P m (fun r => Since log₀ (Answered Q (fun _ => Z) r)) E) :
    Triple H P (agentCall m) (fun a => Since log₀ (Q a)) fun e st => ∃ err, e = some err ∧ Since log₀ Z st := by
  refine .bind hm fun r => ?_
  cases r with
  | ok a => exact .pure fun st h => h
  | error err => exact .throw fun st h => ⟨_, rfl, h⟩

theorem sessionAuthWithAgent_tells {cfg : SshAgentIdentity} (hcfg : opts.sshAgentIdentity = some cfg) :
    Triple H (Since log₀ (Ready opts config session))
      (sessionAuthWithAgent session config.username cfg : Remote κ σ _)
      (fun _ => Since log₀ fun es => ∃ ids, Offered opts config session ids [] (agentPlan opts config ids) (some ()) es)
      fun e st => ∃ err, e = some err ∧ Since log₀ (InVain opts config session) st := by
  refine .bind (agentCall_tells (Q := fun agent es => Ready opts config session es ∧
    Heard (.agent session) (.ok agent) es)
    (.call_since fun es r h => ?_)) fun agent => ?_
  · cases r with
    | ok _ => exact ⟨h.snoc rfl rfl rfl, heard_last ..⟩
    | error _ => exact h.mute rfl rfl rfl rfl
  refine .bind (agentCall_tells (Q := fun _ es => Ready opts config session es ∧ Heard (.agent session) (.ok agent) es)
    (.call_since fun es r h => ?_)) fun _ => ?_
  · cases r with
    | ok _ => exact ⟨h.1.snoc rfl rfl rfl, h.2.snoc _⟩
    | error _ => exact h.1.mute rfl rfl rfl rfl
  refine .bind (agentCall_tells (Q := fun _ es => Ready opts config session es ∧ Heard (.agent session) (.ok agent) es)
    (.call_since fun es r h => ?_)) fun _ => ?_
  · cases r with
    | ok _ => exact ⟨h.1.snoc rfl rfl rfl, h.2.snoc _⟩
    | error _ => exact h.1.mute rfl rfl rfl rfl
  refine .bind (agentCall_tells (Q := fun ids => Offering opts config session ids []) (.call_since fun es r h => ?_))
    fun identities => ?_
  · obtain ⟨hready, hagent⟩ := h
    cases r with
    | ok identities =>
      refine ⟨hready.shaken.snoc rfl, .answered (hagent.snoc _) ?_, ?_⟩
      · rw [agentTold_snoc, hready.silence.told]
        rfl
      · rw [offered_snoc, hready.silence.offered]
        rfl
    | error _ => exact hready.mute rfl rfl rfl rfl
  have hplan : agentPlan opts config identities =
      (identities.filter fun identity => cfg.pubkeyMatches identity.blob).map (.identity config.username) := by
    rw [agentPlan, hcfg]
  refine .bind (tryIdentities_tells agent cfg identities _) fun result => ?_
  rw [← hplan]
  refine .bind (Q := fun _ => Since log₀ (Offered opts config session identities [] (agentPlan opts config identities)
    result.toOption)) (.call_since fun es r h => h.aside rfl rfl rfl) fun _ => ?_
  cases result with
  | ok _ => exact .pure fun st h => h.imp fun es hes => ⟨identities, hes⟩
  | error e =>
    refine .throw fun st h => ⟨_, rfl, h.imp ?_⟩
    rintro es ⟨vs, hes, hvs⟩
    obtain rfl : vs = failed _ := hvs
    exact ⟨identities, hes⟩

theorem on_append (session : SshSession) (plan rest : List Credential) :
    on session (plan ++ rest) = on session plan ++ on session rest :=
  List.map_append

/-- The keys were gone through, behind the agent. -/
theorem Offered.behind_agent {accepted : Option Unit} {es : List Exchange}
    (h : Offered opts config session ids (failed (on session (agentPlan opts config ids)))
      (keyPlan opts config) accepted es) :
    Offered opts config session ids [] (agentPlan opts config ids ++ keyPlan opts config) accepted es := by
  obtain ⟨vs, hes, hvs⟩ := h
  refine ⟨_, hes, ?_⟩
  rw [on_append]
  exact Through.then rfl hvs

theorem Offered.accepted {es : List Exchange}
    (h : Offered opts config session ids [] (agentPlan opts config ids ++ keyPlan opts config) (some ()) es) :
    Ending opts es (.ok session) := by
  obtain ⟨vs, hes, hvs⟩ := h
  refine .accepted hes.shaken hes.held ?_
  rw [hes.offered]
  exact hvs

theorem Offered.refused {es : List Exchange} {e : RemoteError} (hkind : e.kind = .authenticationFailed)
    (h : Offered opts config session ids [] (agentPlan opts config ids ++ keyPlan opts config) none es) :
    Ending opts es (.err e) := by
  obtain ⟨vs, hes, hvs⟩ := h
  refine .refused hes.shaken hes.held ?_ hkind
  rw [hes.offered]
  exact hvs

/-- The keys, or the password. -/
theorem sessionAuth_keys :
    Triple H (Since log₀ (Offering opts config session ids us))
      (match resolveKey opts config with
        | some rsaKey => sessionAuthWithRsakey session config.username rsaKey opts.password config.params.identityFile
        | none => sessionAuthWithPassword session config.username opts.password : Remote κ σ Unit)
      (fun _ => Since log₀ (Offered opts config session ids us (keyPlan opts config) (some ())))
      fun e st => ∃ err, e = some err ∧ err.kind = .authenticationFailed ∧
        Since log₀ (Offered opts config session ids us (keyPlan opts config) none) st := by
  unfold keyPlan
  cases resolveKey opts config with
  | some rsaKey => exact tryKeys_tells _
  | none =>
    refine .bind (offer_tells (.userauthPassword session config.username (opts.password.getD [])) (o := Except.toOption)
      (fun _ => rfl) (fun _ => rfl) fun _ => rfl) fun r => ?_
    cases r with
    | ok _ => exact .pure fun st h => h.imp fun es hes => ⟨_, hes, hit_head _ _ _⟩
    | error err => exact .throw fun st h => ⟨_, rfl, rfl, h.imp fun es hes => ⟨_, hes, through_nil.head⟩⟩

theorem sessionAuth_tells :
    Triple H (Since log₀ (InVain opts config session)) (sessionAuth session opts config : Remote κ σ _)
      (fun _ => Since log₀ fun es => Ending opts es (.ok session)) (FailsAs log₀ opts) := by
  have hpre : ∀ {m : Remote κ σ Unit}, (∀ ids, Triple H
      (Since log₀ (Offering opts config session ids (failed (on session (agentPlan opts config ids))))) m
      (fun _ => Since log₀ fun es => Ending opts es (.ok session)) (FailsAs log₀ opts)) → Triple H
      (Since log₀ (InVain opts config session)) m
      (fun _ => Since log₀ fun es => Ending opts es (.ok session)) (FailsAs log₀ opts) := by
    intro m hm
    refine Triple.pre (.exists_pre hm) fun st h => ?_
    obtain ⟨es, hlog, ids, hes⟩ := h
    exact ⟨ids, es, hlog, hes⟩
  refine .bind (Q := fun b => Since log₀ fun es : List Exchange => InVain opts config session es ∧
    (b = true → Heard (.authenticated session) true es)) (.call_since fun es r h => ?_) fun b => ?_
  · obtain ⟨ids, hes⟩ := h
    refine ⟨⟨ids, hes.aside rfl rfl rfl⟩, ?_⟩
    rintro rfl
    exact heard_last ..
  refine .ite (fun hb => .pure fun st h => h.imp ?_) fun hb => ?_
  · rintro es ⟨⟨ids, hes⟩, hauthed⟩
    exact .already hes.shaken hes.held hes.offered (hauthed hb)
  · refine Triple.pre (hpre fun ids => sessionAuth_keys.conseq (fun _ h => h)
      (fun _ st h => ?_) fun e st h => ?_) fun st h =>
      h.imp fun es hes => hes.1
    · exact h.imp fun es hes => hes.behind_agent.accepted
    · obtain ⟨err, he, hkind, h⟩ := h
      exact ⟨err, he, h.imp fun es hes => hes.behind_agent.refused hkind⟩

theorem authenticate_tells :
    Triple H (Since log₀ (Ready opts config session)) (authenticate session opts config : Remote κ σ _)
      (fun _ => Since log₀ fun es => Ending opts es (.ok session)) (FailsAs log₀ opts) := by
  unfold authenticate
  cases hcfg : opts.sshAgentIdentity with
  | none => exact sessionAuth_tells.pre fun st h => h.imp fun es hes => hes.inVain (.unset hcfg hes.silence.told)
  | some cfg =>
    refine .bind (Q := fun r => Since log₀ (Answered (fun _ es => ∃ ids,
        Offered opts config session ids [] (agentPlan opts config ids) (some ()) es)
          (fun _ => InVain opts config session) r))
      (.attempt (sessionAuthWithAgent_tells hcfg) (fun e st h => ?_) fun st h => ?_) fun r => ?_
    · obtain ⟨err, -, h⟩ := h
      exact h
    · obtain ⟨err, he, -⟩ := h
      cases he
    · cases r with
      | ok _ =>
        refine .pure fun st h => h.imp ?_
        rintro es ⟨ids, vs, hes, hvs⟩
        refine .accepted hes.shaken hes.held ?_
        rw [hes.offered, on_append]
        exact Hit.append hvs _
      | error _ => exact sessionAuth_tells

theorem connect_tells (opts : SshOpts) :
    Triple H (Since log₀ (· = [])) (RemotefsSsh.connect opts : Remote κ σ _)
      (fun session => Since log₀ fun es => Ending opts es (.ok session)) (FailsAs log₀ opts) := by
  refine .bind (tryFrom_tells opts) fun config => ?_
  refine .bind (Q := fun r => Since log₀ fun es : List Exchange => Still es ∧ Resolves opts es config ∧
    Heard (.toSocketAddrs config.address) r es) (.call_since fun es r h => ?_) fun r => ?_
  · exact ⟨h.1.snoc rfl rfl rfl, h.2.snoc _, heard_last ..⟩
  cases r with
  | error err =>
    refine .throw fun st h => ⟨_, rfl, h.imp ?_⟩
    rintro es ⟨hstill, hres, hnowhere⟩
    exact .nowhere hres hnowhere hstill.dialled hstill.offered
  | ok addrs =>
    have hdialling : ∀ es, Still es ∧ Resolves opts es config ∧ Heard (.toSocketAddrs config.address) (.ok addrs) es →
        Dialling opts config addrs [] es := fun es h => ⟨h.2.1, h.2.2, h.1.dialled, h.1.toSilence⟩
    refine .bind (Q := fun stream => Since log₀ (Went opts config addrs [] (dialPlan config addrs) stream))
      ((tryAttempts_tells config.connectionTimeout addrs config.connectionAttempts).pre fun st h =>
        h.imp hdialling) fun r => ?_
    cases r with
    | none =>
      refine .throw fun st h => ⟨_, rfl, h.imp ?_⟩
      rintro es ⟨us, hes, hus⟩
      exact .unreached hes.resolves hes.resolved (hes.dialled.trans hus) hes.silence.offered
    | some stream =>
      refine .bind (Q := fun r => Since log₀ fun es => Reached opts config stream es ∧ Silence es ∧
        Heard .sessionNew r es)
        (.call_since fun es r h => ?_) fun r => ?_
      · obtain ⟨us, hes, hus⟩ := h
        have hsnoc := hes.snoc ⟨.sessionNew, r⟩ rfl rfl
        refine ⟨⟨hsnoc.resolves, addrs, hsnoc.resolved, ?_⟩, hsnoc.silence, heard_last ..⟩
        have hhit : Hit (dialPlan config addrs) stream us := hus
        rw [hsnoc.dialled]
        simpa [dialled?] using hhit
      cases r with
      | error err => exact .throw fun st h => ⟨_, rfl, h.imp fun es hes => .noSession hes.1 hes.2.1.offered⟩
      | ok session =>
        refine .bind (Q := fun _ => Since log₀ (Fitting opts config session)) (.call_since fun es r h => ?_) fun _ => ?_
        · obtain ⟨⟨hres, addrs, hresolved, hhit⟩, hquiet, hmade⟩ := h
          refine ⟨⟨⟨stream, ⟨hres.snoc _, addrs, hresolved.snoc _, ?_⟩, heard_last ..⟩,
            hmade.snoc _⟩, hquiet.snoc rfl rfl⟩
          rw [dialled_snoc]
          simpa [dialled?] using hhit
        have hunfit : ∀ e (st : St Ssh κ σ), Unfit log₀ opts config session e st → FailsAs log₀ opts e st := by
          rintro e st ⟨err, he, hkind, h⟩
          exact ⟨err, he, h.imp fun es hes => .unfit hes.wired hes.silence.offered hkind⟩
        refine .bind ((setAlgoPrefs_tells opts config).conseq (fun _ h => h) (fun _ _ h => h) hunfit) fun _ => ?_
        refine .bind (Q := fun r => Since log₀ fun es => Fitting opts config session es ∧
          Heard (.handshake session) r es)
          (.call_since fun es r h => ⟨h.snoc rfl rfl rfl, heard_last ..⟩) fun r => ?_
        cases r with
        | error err => exact .throw fun st h => hunfit _ _ ⟨_, rfl, rfl, h.imp fun _ hes => hes.1⟩
        | ok _ =>
          refine .bind (authenticate_tells.pre fun st h => h.imp fun es hes => ?_) fun _ => .pure fun st h => h
          exact ⟨⟨hes.1.wired, hes.2⟩, hes.1.silence⟩

end

theorem keyPlan_ne_nil (opts : SshOpts) (config : Config) : keyPlan opts config ≠ [] := by
  unfold keyPlan
  cases resolveKey opts config <;> simp

/-- Only a `connect` that has offered something fails to authenticate. -/
theorem Ending.kind_iff {opts : SshOpts} {es : List Exchange} {e : RemoteError} (h : Ending opts es (.err e)) :
    e.kind = .authenticationFailed ↔ offered es ≠ [] := by
  cases h with
  | unread _ hkind _ ho => simp [hkind, ho]
  | nowhere _ _ _ ho => exact iff_of_false (fun h => by cases h) fun h => h ho
  | unreached _ _ _ ho => exact iff_of_false (fun h => by cases h) fun h => h ho
  | noSession _ ho => exact iff_of_false (fun h => by cases h) fun h => h ho
  | unfit _ ho hkind => simp [hkind, ho]
  | refused _ _ ho hkind =>
    refine iff_of_true hkind fun hnil => ?_
    rw [ho, failed, List.map_eq_nil_iff, on, List.map_eq_nil_iff, List.append_eq_nil_iff] at hnil
    exact keyPlan_ne_nil opts _ hnil.2

end RemotefsSsh
