import RemotefsSsh.Servers

/-!
# Authentication (ssh/commons.rs:84-126, 199-300)

A server is a predicate on credentials. The phase offers it the identities of the ssh agent that match, and then either
keys (the one the key storage resolves and the identity files of the configuration) or, when the storage resolves none,
the password. It succeeds only after one of them was accepted, and always when one of them is
(`authenticate_sound_complete`). It does not try every configured key: without a key of the storage the identity files
are left out, and so is the storage's key for the resolved host when it has one for the host.
-/

namespace RemotefsSsh

open Utf8 UnixPath Effect Prog

/-! ## Credentials -/

inductive Credential where
  | identity (username : Str) (identity : PublicKey)
  | keyFile (username : Str) (privateKey : PathBuf) (passphrase : Option Str)
  | password (username password : Str)
deriving DecidableEq

/-- The call offers the credential. -/
inductive Offers (session : SshSession) : SshCall → Credential → Prop
  | identity {agent : Agent} {username : Str} {identity : PublicKey} :
      Offers session (.agentUserauth session agent username identity) (.identity username identity)
  | keyFile {username : Str} {privateKey : PathBuf} {passphrase : Option Str} :
      Offers session (.userauthPubkeyFile session username privateKey passphrase)
        (.keyFile username privateKey passphrase)
  | password {username password : Str} :
      Offers session (.userauthPassword session username password) (.password username password)

/-- The other calls of the phase. -/
inductive Silent (session : SshSession) : SshCall → Prop
  | authenticated : Silent session (.authenticated session)
  | agent : Silent session (.agent session)
  | agentConnect {agent : Agent} : Silent session (.agentConnect agent)
  | agentListIdentities {agent : Agent} : Silent session (.agentListIdentities agent)
  | agentIdentities {agent : Agent} : Silent session (.agentIdentities agent)
  | agentDisconnect {agent : Agent} : Silent session (.agentDisconnect agent)

/-- A server that accepts some credentials: an offer succeeds exactly if its credential is accepted, and with that the
session is authenticated. -/
structure AuthServer {σ : Type} (H : Handler Ssh σ) (session : SshSession) (accepts : Credential → Bool)
    (authed : σ → Bool) : Prop where
  identity : ∀ agent username identity env,
    (H.reply (.agentUserauth session agent username identity) env).1 = .ok () ↔
      accepts (.identity username identity) = true
  keyFile : ∀ username privateKey passphrase env,
    (H.reply (.userauthPubkeyFile session username privateKey passphrase) env).1 = .ok () ↔
      accepts (.keyFile username privateKey passphrase) = true
  password : ∀ username password env,
    (H.reply (.userauthPassword session username password) env).1 = .ok () ↔
      accepts (.password username password) = true
  authenticated : ∀ env, (H.reply (.authenticated session) env).1 = authed env
  offered : ∀ {c cred}, Offers session c cred → ∀ env, authed (H.reply c env).2 = (authed env || accepts cred)
  silent : ∀ {c}, Silent session c → ∀ env, authed (H.reply c env).2 = authed env

/-- The credentials that the phase tries when the agent holds `ids`. -/
inductive Tried (opts : SshOpts) (config : Config) (ids : List PublicKey) : Credential → Prop
  | identity {cfg : SshAgentIdentity} {identity : PublicKey} : opts.sshAgentIdentity = some cfg → identity ∈ ids →
      cfg.pubkeyMatches identity.blob = true → Tried opts config ids (.identity config.username identity)
  | keyFile {key path : PathBuf} : resolveKey opts config = some key →
      path ∈ key :: config.params.identityFile.getD [] →
      Tried opts config ids (.keyFile config.username path opts.password)
  | password : resolveKey opts config = none →
      Tried opts config ids (.password config.username (opts.password.getD []))

/-- Those that it tries with one agent or another. -/
def Configured (opts : SshOpts) (config : Config) (cred : Credential) : Prop := ∃ ids, Tried opts config ids cred

theorem Offers.unique {session s : SshSession} {c : SshCall} {cred cred' : Credential} (h : Offers session c cred)
    (h' : Offers s c cred') : s = session ∧ cred' = cred := by
  cases h <;> cases h' <;> exact ⟨rfl, rfl⟩

theorem Silent.not_offers {session s : SshSession} {c : SshCall} {cred : Credential} (h : Silent session c) :
    ¬ Offers s c cred := by
  intro h'
  cases h <;> cases h'

section
variable {κ σ : Type} {H : Handler Ssh σ} {session : SshSession} {accepts : Credential → Bool} {authed : σ → Bool}
  {opts : SshOpts} {config : Config}

/-! ## What every run offers -/

/-- The credentials that are offered are given ones, and the session is authenticated in the end if it was before or one
of them was accepted. -/
def Phase (session : SshSession) (accepts : Credential → Bool) (authed : σ → Bool) (opts : SshOpts) (config : Config)
    (st st' : St Ssh κ σ) : Prop :=
  ∃ new, st'.log = st.log ++ new ∧
    (∀ e ∈ new, ∀ s cred, Offers s e.1 cred → s = session ∧ Configured opts config cred) ∧
    (authed st'.env = true ↔ authed st.env = true ∨ ∃ e ∈ new, ∃ cred, Offers session e.1 cred ∧ accepts cred = true)

theorem phase_stable : Stable (Phase (κ := κ) session accepts authed opts config) where
  refl st := ⟨[], by simp, by simp, by simp⟩
  trans := by
    rintro a b c ⟨n, hn, hoff, hauth⟩ ⟨n', hn', hoff', hauth'⟩
    refine ⟨n ++ n', by rw [hn', hn, List.append_assoc], fun e he => ?_, ?_⟩
    · rcases List.mem_append.1 he with he | he
      · exact hoff e he
      · exact hoff' e he
    · rw [hauth', hauth]
      simp only [List.mem_append, or_and_right, exists_or, or_assoc]

theorem ask_offer (hH : AuthServer H session accepts authed) {c : SshCall} {cred : Credential}
    (hc : Offers session c cred) (hcred : Configured opts config cred) :
    Runs H (Phase session accepts authed opts config) (ask c : Remote κ σ _) := by
  intro st
  refine ⟨[⟨c, (H.reply c st.env).1⟩], rfl, ?_, ?_⟩
  · intro e he s cred' h
    rw [List.mem_singleton.1 he] at h
    obtain ⟨hs, rfl⟩ := hc.unique h
    exact ⟨hs, hcred⟩
  · show authed (H.reply c st.env).2 = true ↔ _
    rw [hH.offered hc, Bool.or_eq_true]
    simp only [List.mem_singleton, exists_eq_left]
    constructor
    · rintro (h | h)
      · exact Or.inl h
      · exact Or.inr ⟨cred, hc, h⟩
    · rintro (h | ⟨cred', h', h⟩)
      · exact Or.inl h
      · rw [(hc.unique h').2] at h
        exact Or.inr h

theorem ask_silent (hH : AuthServer H session accepts authed) {c : SshCall} (hc : Silent session c) :
    Runs H (Phase session accepts authed opts config) (ask c : Remote κ σ _) := by
  intro st
  refine ⟨[⟨c, (H.reply c st.env).1⟩], rfl, ?_, ?_⟩
  · intro e he s cred h
    rw [List.mem_singleton.1 he] at h
    exact absurd h hc.not_offers
  · show authed (H.reply c st.env).2 = true ↔ _
    rw [hH.silent hc]
    simp only [List.mem_singleton, exists_eq_left]
    constructor
    · exact Or.inl
    · rintro (h | ⟨cred, h, -⟩)
      · exact h
      · exact absurd h hc.not_offers

theorem agentCall_phase {α : Type} {m : Remote κ σ (Except SshError α)}
    (hm : Runs H (Phase session accepts authed opts config) m) :
    Runs H (Phase session accepts authed opts config) (agentCall m) := by
  unfold agentCall
  refine .bind phase_stable hm fun r => ?_
  cases r with
  | error err => exact .throw phase_stable _
  | ok a => exact .pure phase_stable a

theorem tryIdentities_phase (hH : AuthServer H session accepts authed) {cfg : SshAgentIdentity}
    (hcfg : opts.sshAgentIdentity = some cfg) (agent : Agent) (ids : List PublicKey) (result : RemoteResult Unit) :
    Runs H (Phase session accepts authed opts config)
      (tryIdentities session agent config.username cfg ids result : Remote κ σ _) := by
  induction ids generalizing result with
  | nil => exact .pure phase_stable result
  | cons identity ids ih =>
    unfold tryIdentities
    by_cases hmatch : cfg.pubkeyMatches identity.blob = true
    · rw [if_pos hmatch]
      have hconf : Configured opts config (.identity config.username identity) :=
        ⟨[identity], .identity hcfg List.mem_cons_self hmatch⟩
      refine .bind phase_stable (ask_offer hH .identity hconf) fun r => ?_
      cases r with
      | ok u => exact .pure phase_stable _
      | error err => exact ih _
    · rw [if_neg hmatch]
      exact ih result

theorem sessionAuthWithAgent_phase (hH : AuthServer H session accepts authed) {cfg : SshAgentIdentity}
    (hcfg : opts.sshAgentIdentity = some cfg) :
    Runs H (Phase session accepts authed opts config)
      (sessionAuthWithAgent session config.username cfg : Remote κ σ Unit) := by
  unfold sessionAuthWithAgent
  refine .bind phase_stable (agentCall_phase (ask_silent hH .agent)) fun agent => ?_
  refine .bind phase_stable (agentCall_phase (ask_silent hH .agentConnect)) fun _ => ?_
  refine .bind phase_stable (agentCall_phase (ask_silent hH .agentListIdentities)) fun _ => ?_
  refine .bind phase_stable (agentCall_phase (ask_silent hH .agentIdentities)) fun ids => ?_
  refine .bind phase_stable (tryIdentities_phase hH hcfg agent ids _) fun result => ?_
  refine .bind phase_stable (ask_silent hH .agentDisconnect) fun _ => ?_
  cases result with
  | ok u => exact .pure phase_stable ()
  | error e => exact .throw phase_stable e

theorem tryKeys_phase (hH : AuthServer H session accepts authed) {keys : List PathBuf}
    (hkeys : ∀ key ∈ keys, Configured opts config (.keyFile config.username key opts.password)) :
    Runs H (Phase session accepts authed opts config)
      (tryKeys session config.username opts.password keys : Remote κ σ Unit) := by
  induction keys with
  | nil => exact .throw phase_stable _
  | cons key keys ih =>
    unfold tryKeys
    refine .bind phase_stable (ask_offer hH .keyFile (hkeys key List.mem_cons_self)) fun r => ?_
    cases r with
    | ok u => exact .pure phase_stable ()
    | error err => exact ih fun key hkey => hkeys key (List.mem_cons_of_mem _ hkey)

theorem sessionAuth_phase (hH : AuthServer H session accepts authed) :
    Runs H (Phase session accepts authed opts config) (sessionAuth session opts config : Remote κ σ Unit) := by
  unfold sessionAuth
  refine .bind phase_stable (ask_silent hH .authenticated) fun b => ?_
  refine .ite (.pure phase_stable ()) ?_
  cases hkey : resolveKey opts config with
  | some key => exact tryKeys_phase hH fun path hpath => ⟨[], .keyFile hkey hpath⟩
  | none =>
    unfold sessionAuthWithPassword
    refine .bind phase_stable (ask_offer hH .password ⟨[], .password hkey⟩) fun r => ?_
    cases r with
    | error err => exact .throw phase_stable _
    | ok u => exact .pure phase_stable ()

theorem authenticate_phase (hH : AuthServer H session accepts authed) (opts : SshOpts) (config : Config) :
    Runs H (Phase session accepts authed opts config) (authenticate session opts config : Remote κ σ Unit) := by
  unfold authenticate
  cases hcfg : opts.sshAgentIdentity with
  | none => exact sessionAuth_phase hH
  | some cfg =>
    refine .bind phase_stable (.attempt (sessionAuthWithAgent_phase hH hcfg)) fun r => ?_
    cases r with
    | ok u => exact .pure phase_stable ()
    | error e => exact sessionAuth_phase hH

/-! ## What every run achieves -/

/-- The run succeeds and the session is authenticated, or it fails and all of `tried` are refused. -/
def Decides (H : Handler Ssh σ) (accepts : Credential → Bool) (authed : σ → Bool) (tried : Credential → Prop)
    (m : Remote κ σ Unit) (st : St Ssh κ σ) : Prop :=
  (∃ st', m H st = (.ok (), st') ∧ authed st'.env = true) ∨
    (∃ e st', m H st = (.err e, st')) ∧ ∀ cred, tried cred → accepts cred = false

theorem Decides.mono {tried tried' : Credential → Prop} {m : Remote κ σ Unit} {st : St Ssh κ σ}
    (h : Decides H accepts authed tried m st) (himp : ∀ cred, tried' cred → tried cred) :
    Decides H accepts authed tried' m st :=
  h.imp_right fun ⟨he, hall⟩ => ⟨he, fun cred hcred => hall cred (himp cred hcred)⟩

/-- The calls of `session_auth_with_agent` before its loop: the agent and its identities. -/
def reachAgent (session : SshSession) : Remote κ σ (Agent × List PublicKey) := do
  let agent ← agentCall (ask (.agent session))
  agentCall (ask (.agentConnect agent))
  agentCall (ask (.agentListIdentities agent))
  let identities ← agentCall (ask (.agentIdentities agent))
  pure (agent, identities)

/-- The calls from there on. -/
def tryAgent (session : SshSession) (username : Str) (cfg : SshAgentIdentity) (agent : Agent)
    (identities : List PublicKey) : Remote κ σ Unit := do
  let result ← tryIdentities session agent username cfg identities (.error (.new .authenticationFailed))
  let _ ← ask (.agentDisconnect agent)
  match result with
  | .ok () => pure ()
  | .error e => throw e

/-- The identities of the agent, none when it is not reached. -/
def agentKeys (H : Handler Ssh σ) (session : SshSession) (st : St Ssh κ σ) : List PublicKey :=
  match (reachAgent session H st).1 with
  | .ok (_, identities) => identities
  | _ => []

/-- An offer succeeds and authenticates, or it fails and its credential is refused. -/
theorem offer_cases {r : Except SshError Unit} {before after accepted : Bool} (hr : r = .ok () ↔ accepted = true)
    (hafter : after = (before || accepted)) :
    (r = .ok () ∧ after = true) ∨ ∃ err, r = .error err ∧ accepted = false := by
  cases r with
  | ok u =>
    left
    rw [hafter, hr.1 rfl, Bool.or_true]
    exact ⟨rfl, rfl⟩
  | error err =>
    right
    refine ⟨err, rfl, ?_⟩
    rw [← Bool.not_eq_true, ← hr]
    intro h
    cases h

theorem tryIdentities_run (hH : AuthServer H session accepts authed) (agent : Agent) (username : Str)
    (cfg : SshAgentIdentity) (ids : List PublicKey) (e : RemoteError) (st : St Ssh κ σ) :
    ∃ r st', tryIdentities session agent username cfg ids (.error e) H st = (.ok r, st') ∧
      ((r = .ok () ∧ authed st'.env = true) ∨ (∃ e', r = .error e') ∧ ∀ identity ∈ ids,
        cfg.pubkeyMatches identity.blob = true → accepts (.identity username identity) = false) := by
  induction ids generalizing e st with
  | nil => exact ⟨.error e, st, rfl, Or.inr ⟨⟨e, rfl⟩, by simp⟩⟩
  | cons identity ids ih =>
    unfold tryIdentities
    by_cases hmatch : cfg.pubkeyMatches identity.blob = true
    · rw [if_pos hmatch, bind_ok (ask_run _ st)]
      rcases offer_cases (hH.identity agent username identity st.env) (hH.offered .identity st.env) with
        ⟨hr, hauth⟩ | ⟨err, hr, hno⟩
      · rw [hr]
        exact ⟨.ok (), _, rfl, Or.inl ⟨rfl, hauth⟩⟩
      · rw [hr]
        obtain ⟨r, st', hrun, hcases⟩ := ih (.newEx .authenticationFailed err.display)
          ⟨st.self, (H.reply (.agentUserauth session agent username identity) st.env).2,
            st.log ++ [⟨.agentUserauth session agent username identity, .error err⟩]⟩
        refine ⟨r, st', hrun, hcases.imp_right fun ⟨he, hids⟩ => ⟨he, fun x hx hx' => ?_⟩⟩
        rcases List.mem_cons.1 hx with rfl | hx
        · exact hno
        · exact hids x hx hx'
    · rw [if_neg hmatch]
      obtain ⟨r, st', hrun, hcases⟩ := ih e st
      refine ⟨r, st', hrun, hcases.imp_right fun ⟨he, hids⟩ => ⟨he, fun x hx hx' => ?_⟩⟩
      rcases List.mem_cons.1 hx with rfl | hx
      · exact absurd hx' hmatch
      · exact hids x hx hx'

theorem agentCall_finishes {α : Type} {m : Remote κ σ (Except SshError α)} {st : St Ssh κ σ} (hm : Finishes H m st) :
    Finishes H (agentCall m) st := by
  unfold agentCall
  refine hm.bind fun r st' => ?_
  cases r with
  | error err => exact .throw _
  | ok a => exact .pure a

theorem reachAgent_finishes (H : Handler Ssh σ) (session : SshSession) (st : St Ssh κ σ) :
    Finishes H (reachAgent session) st := by
  unfold reachAgent
  refine .bind (agentCall_finishes (.call _)) fun agent st₁ => ?_
  refine .bind (agentCall_finishes (.call _)) fun _ st₂ => ?_
  refine .bind (agentCall_finishes (.call _)) fun _ st₃ => ?_
  exact .bind (agentCall_finishes (.call _)) fun ids st₄ => .pure (agent, ids)

theorem sessionAuthWithAgent_eq (username : Str) (cfg : SshAgentIdentity) :
    (sessionAuthWithAgent session username cfg : Remote κ σ Unit) =
      reachAgent session >>= fun reached => tryAgent session username cfg reached.1 reached.2 := by
  unfold sessionAuthWithAgent reachAgent
  simp only [bind_bind]
  rfl

theorem sessionAuthWithAgent_decides (hH : AuthServer H session accepts authed) (username : Str)
    (cfg : SshAgentIdentity) (st : St Ssh κ σ) :
    Decides H accepts authed (fun cred => ∃ identity ∈ agentKeys H session st,
      cfg.pubkeyMatches identity.blob = true ∧ cred = .identity username identity)
      (sessionAuthWithAgent session username cfg) st := by
  rw [sessionAuthWithAgent_eq]
  rcases reachAgent_finishes H session st with ⟨⟨agent, ids⟩, st₁, hreach⟩ | ⟨e, st₁, hreach⟩
  · have hkeys : agentKeys H session st = ids := by
      unfold agentKeys
      rw [hreach]
    obtain ⟨r, st₂, hrun, hcases⟩ := tryIdentities_run hH agent username cfg ids (.new .authenticationFailed) st₁
    unfold Decides tryAgent
    rw [bind_ok hreach, bind_ok hrun, bind_ok (ask_run _ st₂), hkeys]
    rcases hcases with ⟨rfl, hauth⟩ | ⟨⟨e, rfl⟩, hids⟩
    · refine Or.inl ⟨_, rfl, ?_⟩
      rw [hH.silent .agentDisconnect, hauth]
    · refine Or.inr ⟨⟨e, _, rfl⟩, ?_⟩
      rintro cred ⟨identity, hmem, hmatch, rfl⟩
      exact hids identity hmem hmatch
  · have hkeys : agentKeys H session st = [] := by
      unfold agentKeys
      rw [hreach]
    refine Or.inr ⟨⟨e, st₁, bind_err hreach⟩, ?_⟩
    rintro cred ⟨identity, hmem, -⟩
    rw [hkeys] at hmem
    exact absurd hmem List.not_mem_nil

theorem tryKeys_decides (hH : AuthServer H session accepts authed) (username : Str) (passphrase : Option Str)
    (keys : List PathBuf) (st : St Ssh κ σ) :
    Decides H accepts authed (fun cred => ∃ key ∈ keys, cred = .keyFile username key passphrase)
      (tryKeys session username passphrase keys) st := by
  induction keys generalizing st with
  | nil => exact Or.inr ⟨⟨_, st, rfl⟩, by simp⟩
  | cons key keys ih =>
    unfold Decides tryKeys
    rw [bind_ok (ask_run _ st)]
    rcases offer_cases (hH.keyFile username key passphrase st.env) (hH.offered .keyFile st.env) with
      ⟨hr, hauth⟩ | ⟨err, hr, hno⟩
    · rw [hr]
      exact Or.inl ⟨_, rfl, hauth⟩
    · rw [hr]
      refine (ih _).imp_right fun ⟨he, hkeys⟩ => ⟨he, ?_⟩
      rintro cred ⟨path, hpath, rfl⟩
      rcases List.mem_cons.1 hpath with rfl | hpath
      · exact hno
      · exact hkeys _ ⟨path, hpath, rfl⟩

theorem sessionAuthWithPassword_decides (hH : AuthServer H session accepts authed) (username : Str)
    (password : Option Str) (st : St Ssh κ σ) :
    Decides H accepts authed (fun cred => cred = .password username (password.getD []))
      (sessionAuthWithPassword session username password) st := by
  unfold Decides sessionAuthWithPassword
  rw [bind_ok (ask_run _ st)]
  rcases offer_cases (hH.password username (password.getD []) st.env) (hH.offered .password st.env) with
    ⟨hr, hauth⟩ | ⟨err, hr, hno⟩
  · rw [hr]
    exact Or.inl ⟨_, rfl, hauth⟩
  · rw [hr]
    refine Or.inr ⟨⟨_, _, rfl⟩, ?_⟩
    rintro cred rfl
    exact hno

theorem sessionAuth_decides (hH : AuthServer H session accepts authed) (st : St Ssh κ σ) :
    Decides H accepts authed (Tried opts config []) (sessionAuth session opts config) st := by
  have hsilent := hH.silent .authenticated st.env
  have hreply := hH.authenticated st.env
  unfold Decides sessionAuth
  rw [bind_ok (ask_run _ st)]
  cases hb : (H.reply (.authenticated session) st.env).1 with
  | true => exact Or.inl ⟨_, rfl, by rw [hsilent, ← hreply, hb]⟩
  | false =>
    rw [if_neg Bool.false_ne_true]
    cases hkey : resolveKey opts config with
    | some key =>
      refine (tryKeys_decides hH config.username opts.password (key :: config.params.identityFile.getD []) _).mono
        fun cred htried => ?_
      cases htried with
      | identity hcfg hmem hmatch => exact absurd hmem List.not_mem_nil
      | @keyFile key' path hkey' hpath =>
        rw [hkey] at hkey'
        cases hkey'
        exact ⟨path, hpath, rfl⟩
      | password hnone => rw [hkey] at hnone; cases hnone
    | none =>
      refine (sessionAuthWithPassword_decides hH config.username opts.password _).mono fun cred htried => ?_
      cases htried with
      | identity hcfg hmem hmatch => exact absurd hmem List.not_mem_nil
      | keyFile hkey' hpath => rw [hkey] at hkey'; cases hkey'
      | password hnone => rfl

theorem authenticate_decides (hH : AuthServer H session accepts authed) (opts : SshOpts) (config : Config)
    (st : St Ssh κ σ) :
    Decides H accepts authed (Tried opts config (agentKeys H session st)) (authenticate session opts config) st := by
  unfold authenticate
  cases hcfg : opts.sshAgentIdentity with
  | none =>
    refine (sessionAuth_decides hH st).mono fun cred htried => ?_
    cases htried with
    | identity hcfg' hmem hmatch => rw [hcfg] at hcfg'; cases hcfg'
    | keyFile hkey hpath => exact .keyFile hkey hpath
    | password hnone => exact .password hnone
  | some cfg =>
    dsimp only
    unfold Decides
    rcases sessionAuthWithAgent_decides hH config.username cfg st with ⟨st₁, hrun, hauth⟩ | ⟨⟨e, st₁, hrun⟩, hids⟩
    · rw [bind_ok (attempt_ok hrun)]
      exact Or.inl ⟨st₁, rfl, hauth⟩
    · rw [bind_ok (attempt_err hrun)]
      refine (sessionAuth_decides hH st₁).imp_right fun ⟨he, hall⟩ => ⟨he, fun cred htried => ?_⟩
      cases htried with
      | @identity cfg' identity hcfg' hmem hmatch =>
        rw [hcfg] at hcfg'
        cases hcfg'
        exact hids _ ⟨identity, hmem, hmatch, rfl⟩
      | keyFile hkey hpath => exact hall _ (.keyFile hkey hpath)
      | password hnone => exact hall _ (.password hnone)

theorem authed_of_ok (hH : AuthServer H session accepts authed) {st st' : St Ssh κ σ}
    (h : authenticate session opts config H st = (.ok (), st')) : authed st'.env = true := by
  rcases authenticate_decides hH opts config st with ⟨st₁, hrun, hyes⟩ | ⟨⟨e, st₁, hrun⟩, -⟩
  · rw [h] at hrun
    cases hrun
    exact hyes
  · rw [h] at hrun
    cases hrun

/-- **Before the phase nothing was accepted. It offers no identity of the agent that does not match, succeeds only after
the server accepted a credential, and succeeds when the server accepts one that is tried.** -/
theorem authenticate_sound_complete (hH : AuthServer H session accepts authed) (opts : SshOpts) (config : Config)
    (st : St Ssh κ σ) (hnew : authed st.env = false) :
    (∃ new, (authenticate session opts config H st).2.log = st.log ++ new ∧
      (∀ e ∈ new, ∀ s username identity, Offers s e.1 (.identity username identity) →
        ∃ cfg, opts.sshAgentIdentity = some cfg ∧ cfg.pubkeyMatches identity.blob = true) ∧
      ∀ st', authenticate session opts config H st = (.ok (), st') →
        ∃ e ∈ new, ∃ cred, Offers session e.1 cred ∧ accepts cred = true) ∧
    ((∃ cred, Tried opts config (agentKeys H session st) cred ∧ accepts cred = true) →
      ∃ st', authenticate session opts config H st = (.ok (), st')) := by
  constructor
  · obtain ⟨new, hlog, hoff, hauth⟩ := authenticate_phase hH opts config st
    refine ⟨new, hlog, fun e he s username identity hoffers => ?_, fun st' hrun => ?_⟩
    · obtain ⟨-, ids, htried⟩ := hoff e he s _ hoffers
      cases htried with
      | identity hcfg hmem hmatch => exact ⟨_, hcfg, hmatch⟩
    · rw [hrun] at hauth
      rcases hauth.1 (authed_of_ok hH hrun) with hbefore | haccepted
      · rw [hnew] at hbefore
        cases hbefore
      · exact haccepted
  · rintro ⟨cred, htried, hyes⟩
    rcases authenticate_decides hH opts config st with ⟨st', hrun, -⟩ | ⟨-, hall⟩
    · exact ⟨st', hrun⟩
    · rw [hall cred htried] at hyes
      cases hyes

/-! ## `connect` -/

theorem tryFrom_fromParams {st st' : St Ssh κ σ} (h : Config.tryFrom opts H st = (.ok config, st')) :
    ∃ params, config = Config.fromParams params opts := by
  unfold Config.tryFrom at h
  cases hfile : opts.configFile with
  | none =>
    rw [hfile] at h
    cases h
    exact ⟨_, rfl⟩
  | some p =>
    rw [hfile] at h
    obtain ⟨params, st₁, -, h⟩ := bind_eq_ok h
    cases h
    exact ⟨params, rfl⟩

/-- A connection that is made went through the phase, right after the handshake. -/
theorem connect_authenticates {st st' : St Ssh κ σ} (h : connect opts H st = (.ok session, st')) :
    ∃ params env st₁, st₁.env = (H.reply (.handshake session) env).2 ∧
      authenticate session opts (Config.fromParams params opts) H st₁ = (.ok (), st') := by
  unfold connect at h
  obtain ⟨config, st₁, hconfig, h⟩ := bind_eq_ok h
  obtain ⟨params, rfl⟩ := tryFrom_fromParams hconfig
  obtain ⟨addrs, st₂, -, h⟩ := bind_eq_ok h
  cases addrs with
  | error err => cases h
  | ok addrs =>
    obtain ⟨stream, st₃, -, h⟩ := bind_eq_ok h
    cases stream with
    | none => cases h
    | some stream =>
      obtain ⟨new, st₄, -, h⟩ := bind_eq_ok h
      cases new with
      | error err => cases h
      | ok new =>
        obtain ⟨_, st₅, -, h⟩ := bind_eq_ok h
        obtain ⟨_, st₆, -, h⟩ := bind_eq_ok h
        obtain ⟨shaken, st₇, hshaken, h⟩ := bind_eq_ok h
        cases shaken with
        | error err => cases h
        | ok u =>
          obtain ⟨_, st₈, hauth, h⟩ := bind_eq_ok h
          cases h
          obtain ⟨-, henv, -, -⟩ := ask_ok hshaken
          exact ⟨params, st₆.env, st₇, henv, hauth⟩

/-- When a handshake leaves the session unauthenticated, every connection was made with a credential that the server
accepted. -/
theorem connect_admitted (hH : AuthServer H session accepts authed)
    (hshake : ∀ env, authed (H.reply (.handshake session) env).2 = false) {st st' : St Ssh κ σ}
    (h : connect opts H st = (.ok session, st')) :
    ∃ e ∈ st'.log, ∃ cred, Offers session e.1 cred ∧ accepts cred = true := by
  obtain ⟨params, env, st₁, henv, hrun⟩ := connect_authenticates h
  obtain ⟨new, hlog, -, hauth⟩ := authenticate_phase hH opts (.fromParams params opts) st₁
  rw [hrun] at hlog hauth
  rcases hauth.1 (authed_of_ok hH hrun) with hbefore | ⟨e, he, haccepted⟩
  · rw [henv, hshake] at hbefore
    cases hbefore
  · refine ⟨e, ?_, haccepted⟩
    rw [hlog]
    exact List.mem_append_right _ he

end

/-! ## Keys that are not tried -/

/-- A key that is given: a matching identity, a key that the storage has for one of the hosts, an identity file. -/
inductive ConfiguredKey (opts : SshOpts) (config : Config) (ids : List PublicKey) : Credential → Prop
  | identity {cfg : SshAgentIdentity} {identity : PublicKey} : opts.sshAgentIdentity = some cfg → identity ∈ ids →
      cfg.pubkeyMatches identity.blob = true → ConfiguredKey opts config ids (.identity config.username identity)
  | stored {resolve : Str → Str → Option PathBuf} {host : Str} {key : PathBuf} : opts.keyStorage = some resolve →
      host = config.host ∨ host = config.resolvedHost → resolve host config.username = some key →
      ConfiguredKey opts config ids (.keyFile config.username key opts.password)
  | file {path : PathBuf} : path ∈ config.params.identityFile.getD [] →
      ConfiguredKey opts config ids (.keyFile config.username path opts.password)

namespace SampleLogin

def answer (accepts : Credential → Bool) (cred : Credential) (authed : Bool) : Except SshError Unit × Bool :=
  if accepts cred then (.ok (), true) else (.error ⟨.session (-18), "Authentication failed".toList⟩, authed)

/-- A server that accepts these credentials, and an agent with these identities. -/
def server (accepts : Credential → Bool) (ids : List PublicKey) : Handler Ssh Bool where
  reply
    | .agentUserauth _ _ username identity, authed => answer accepts (.identity username identity) authed
    | .userauthPubkeyFile _ username key passphrase, authed => answer accepts (.keyFile username key passphrase) authed
    | .userauthPassword _ username password, authed => answer accepts (.password username password) authed
    | .authenticated _, authed => (authed, authed)
    | .agentIdentities _, authed => (.ok ids, authed)
    | c, authed => (okReply c, authed)

theorem answer_ok_iff (accepts : Credential → Bool) (cred : Credential) (authed : Bool) :
    (answer accepts cred authed).1 = .ok () ↔ accepts cred = true := by
  unfold answer
  by_cases h : accepts cred = true <;> simp [h]

theorem answer_authed (accepts : Credential → Bool) (cred : Credential) (authed : Bool) :
    (answer accepts cred authed).2 = (authed || accepts cred) := by
  unfold answer
  by_cases h : accepts cred = true <;> simp [h]

theorem server_auth (accepts : Credential → Bool) (ids : List PublicKey) :
    AuthServer (server accepts ids) ⟨0⟩ accepts id where
  identity _ username identity env := answer_ok_iff accepts (.identity username identity) env
  keyFile username privateKey passphrase env := answer_ok_iff accepts (.keyFile username privateKey passphrase) env
  password username password env := answer_ok_iff accepts (.password username password) env
  authenticated _ := rfl
  offered h env := by cases h <;> exact answer_authed accepts _ env
  silent h env := by cases h <;> rfl

def start : St Ssh Unit Bool := ⟨(), false, []⟩

/-- Only this credential is accepted; the agent has two identities. -/
def accepting (cred : Credential) : Handler Ssh Bool := server (fun c => decide (c = cred)) [⟨[1]⟩, ⟨[2]⟩]

/-- The second of them is to be used. -/
def withAgent : SshOpts :=
  { SshOpts.new "h".toList with username := some "u".toList, sshAgentIdentity := some (.pubkey [2]) }

def withoutStorage : SshOpts := { SshOpts.new "h".toList with username := some "u".toList }

/-- A storage with a key for the host and another one for each other host. -/
def withStorage : SshOpts :=
  { withoutStorage with
    keyStorage := some fun host _ => some (if host = "h".toList then "/old".toList else "/new".toList) }

def params : HostParams :=
  { HostParams.default with hostName := some "h.example".toList, identityFile := some ["/id".toList] }

end SampleLogin

open SampleLogin in
/-- The phase from the start with an agent: the identity that matches is accepted, and only that one is offered. -/
theorem authenticate_second_identity :
    ∃ st', authenticate ⟨0⟩ withAgent (.fromParams .default withAgent) (accepting (.identity "u".toList ⟨[2]⟩)) start =
        (.ok (), st') ∧
      ∀ e ∈ st'.log, ∀ s username identity, Offers s e.1 (.identity username identity) → identity.blob = [2] := by
  obtain ⟨⟨new, hlog, hmatch, -⟩, hcomplete⟩ := authenticate_sound_complete
    (server_auth (fun c => decide (c = .identity "u".toList ⟨[2]⟩)) [⟨[1]⟩, ⟨[2]⟩]) withAgent
    (.fromParams .default withAgent) start rfl
  have hmem : (⟨[2]⟩ : PublicKey) ∈ agentKeys (accepting (.identity "u".toList ⟨[2]⟩)) ⟨0⟩ start := by
    show (⟨[2]⟩ : PublicKey) ∈ [⟨[1]⟩, ⟨[2]⟩]
    simp
  obtain ⟨st', hrun⟩ := hcomplete ⟨.identity "u".toList ⟨[2]⟩, .identity rfl hmem rfl, by simp⟩
  refine ⟨st', hrun, fun e he s username identity hoffers => ?_⟩
  rw [hrun] at hlog
  rw [hlog] at he
  obtain ⟨cfg, hcfg, hblob⟩ := hmatch e he s username identity hoffers
  cases hcfg
  have hblob : ([2] == identity.blob) = true := hblob
  exact (beq_iff_eq.1 hblob).symm

open SampleLogin in
/-- The server accepts an identity file and there is no key storage; it accepts the key for the resolved host and the
storage has another one for the host. -/
theorem authenticate_key_not_tried :
    ¬ ((∃ cred, ConfiguredKey withoutStorage (.fromParams params withoutStorage)
            (agentKeys (accepting (.keyFile "u".toList "/id".toList none)) ⟨0⟩ start) cred ∧
          decide (cred = .keyFile "u".toList "/id".toList none) = true) →
        ∃ st', authenticate ⟨0⟩ withoutStorage (.fromParams params withoutStorage)
          (accepting (.keyFile "u".toList "/id".toList none)) start = (.ok (), st')) ∧
    ¬ ((∃ cred, ConfiguredKey withStorage (.fromParams params withStorage)
            (agentKeys (accepting (.keyFile "u".toList "/new".toList none)) ⟨0⟩ start) cred ∧
          decide (cred = .keyFile "u".toList "/new".toList none) = true) →
        ∃ st', authenticate ⟨0⟩ withStorage (.fromParams params withStorage)
          (accepting (.keyFile "u".toList "/new".toList none)) start = (.ok (), st')) := by
  constructor
  · intro h
    have hfile : ∀ ids, ConfiguredKey withoutStorage (.fromParams params withoutStorage) ids
        (.keyFile "u".toList "/id".toList none) := fun ids => .file List.mem_cons_self
    obtain ⟨st', hrun⟩ := h ⟨_, hfile _, rfl⟩
    cases hrun
  · intro h
    have hstored : ∀ ids, ConfiguredKey withStorage (.fromParams params withStorage) ids
        (.keyFile "u".toList "/new".toList none) := fun ids => .stored rfl (Or.inr rfl) rfl
    obtain ⟨st', hrun⟩ := h ⟨_, hstored _, rfl⟩
    cases hrun

end RemotefsSsh
