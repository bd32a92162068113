import RemotefsSsh.Hosts
import RemotefsSsh.Listing

/-!
# The clients as state machines (ssh/sftp.rs, ssh/scp.rs)

A client starts disconnected and runs any sequence of operations against a `Server`: an environment
in which the remote working directory is reported as an absolute path, and a session on which an
authentication succeeded stays authenticated until it is disconnected. The invariant (`SftpFs.Inv`,
`ScpFs.Inv`) is that the working directory is absolute, that the two handles of `SftpFs` come and go
together, and that a session that is held is authenticated. What is said of the working directory and
of sessions are parameters: with nothing said of them (`dirs_any`, `sessions_any`) the rest holds in
every environment.

`ScpFs::change_dir` stores what follows the first zero of the shell's answer. That is the answer of
`pwd` if the directory is plain in double quotes; another name can put its own text there
(`client_stores_name`).

Most operations only ask (`Asking.lean`); `connect`, `disconnect` and `change_dir` assign to the
record, each after its last point of failure. `client_state_machine` puts this together for both
clients.
-/

namespace RemotefsSsh

open Utf8 UnixPath Effect Prog

/-- The sessions in `Authed` are authenticated until they are disconnected. -/
structure Sessions {σ : Type} (H : Handler Ssh σ) (Authed : σ → SshSession → Prop) : Prop where
  authenticated : ∀ env s, (H.reply (.authenticated s) env).1 = true → Authed env s
  agentUserauth : ∀ env s a username identity, (H.reply (.agentUserauth s a username identity) env).1 = .ok () →
    Authed (H.reply (.agentUserauth s a username identity) env).2 s
  userauthPubkeyFile : ∀ env s username key pass, (H.reply (.userauthPubkeyFile s username key pass) env).1 = .ok () →
    Authed (H.reply (.userauthPubkeyFile s username key pass) env).2 s
  userauthPassword : ∀ env s username password, (H.reply (.userauthPassword s username password) env).1 = .ok () →
    Authed (H.reply (.userauthPassword s username password) env).2 s
  stays : ∀ c env s, (∀ text, c ≠ .disconnect s text) → Authed env s → Authed (H.reply c env).2 s
  disconnectFailed : ∀ env s text e, (H.reply (.disconnect s text) env).1 = .error e → Authed env s →
    Authed (H.reply (.disconnect s text) env).2 s

/-- What is reported as the working directory is in `Dir`, if only directories in `Entered` are changed to. -/
structure Dirs {σ : Type} (H : Handler Ssh σ) (Entered Dir : PathBuf → Prop) : Prop where
  root : Dir ['/']
  joined : ∀ {w} p, Dir w → Dir (absolutize w p)
  realpath : ∀ env f p q, (H.reply (.realpath f p) env).1 = .ok q → Dir q
  pwd : ∀ {κ : Type} (session : SshSession) (st : St Ssh κ σ) out st',
    performShellCmd session ShellCmd.pwd.text H st = (.ok out, st') → Dir (trim out)
  changeDir : ∀ {κ : Type} (session : SshSession) (dir : PathBuf) (st : St Ssh κ σ) out st' rest, Entered dir →
    performShellCmd session (ShellCmd.changeDir dir).text H st = (.ok out, st') → (trim out).head? = some '0' →
      sliceFrom (trim out) 1 = some rest → Dir (trim rest)

/-- What is assumed of the environment. -/
structure Server (σ : Type) where
  handler : Handler Ssh σ
  /-- An authentication succeeded on the session, and it has not been disconnected since. -/
  Authed : σ → SshSession → Prop
  sessions : Sessions handler Authed
  connected : ∀ env s, Authed env s → (handler.reply (.authenticated s) env).1 = true
  realpath : ∀ env f p q, (handler.reply (.realpath f p) env).1 = .ok q → isAbsolute q = true
  pwd : ∀ {κ : Type} (session : SshSession) (st : St Ssh κ σ) out st',
    performShellCmd session ShellCmd.pwd.text handler st = (.ok out, st') → isAbsolute (trim out) = true
  /-- The exit code of `cd`, then the answer of `pwd`. -/
  changeDir : ∀ {κ : Type} (session : SshSession) (dir : PathBuf) (st : St Ssh κ σ) out st', Sh.Plain dir →
    performShellCmd session (ShellCmd.changeDir dir).text handler st = (.ok out, st') →
      ∃ k cwd, out = decimal k ++ '\n' :: cwd ∧ isAbsolute (trim cwd) = true

theorem sessions_any {σ : Type} (H : Handler Ssh σ) : Sessions H fun _ _ => True where
  authenticated _ _ _ := trivial
  agentUserauth _ _ _ _ _ _ := trivial
  userauthPubkeyFile _ _ _ _ _ _ := trivial
  userauthPassword _ _ _ _ _ := trivial
  stays _ _ _ _ _ := trivial
  disconnectFailed _ _ _ _ _ _ := trivial

theorem dirs_any {σ : Type} (H : Handler Ssh σ) : Dirs H (fun _ => True) fun _ => True where
  root := trivial
  joined _ _ := trivial
  realpath _ _ _ _ _ := trivial
  pwd _ _ _ _ _ := trivial
  changeDir _ _ _ _ _ _ _ _ _ _ := trivial

/-! ## The answer to `cd` -/

namespace ScpFs

/-- The numeral stays in front when the answer is trimmed. -/
theorem trim_answer (k : Nat) (cwd : Str) :
    ∃ t b, '\n' :: cwd = t ++ b ∧ Blank b ∧ trim (decimal k ++ '\n' :: cwd) = decimal k ++ t := by
  obtain ⟨b, hsplit, hb, hlast⟩ := trimEnd_split ('\n' :: cwd)
  generalize trimEnd ('\n' :: cwd) = t at hsplit hlast
  have htight : Tight (decimal k ++ t) := by
    refine ⟨fun c hc => ?_, fun c hc => ?_⟩
    · rw [List.head?_append_of_ne_nil _ (decimal_ne_nil k)] at hc
      exact (decimal_tight k).1 c hc
    · by_cases ht : t = []
      · rw [ht, List.append_nil] at hc
        exact (decimal_tight k).2 c hc
      · rw [List.getLast?_append_of_ne_nil _ ht] at hc
        exact hlast c hc
  refine ⟨t, b, hsplit, hb, ?_⟩
  rw [hsplit, ← List.append_assoc]
  exact trim_unique blank_nil hb htight

/-- Only the exit code 0 begins with a zero. -/
theorem answer_zero {k : Nat} {cwd : Str} (h0 : (trim (decimal k ++ '\n' :: cwd)).head? = some '0') : k = 0 := by
  obtain ⟨t, b, _, _, htrim⟩ := trim_answer k cwd
  rw [htrim, List.head?_append_of_ne_nil _ (decimal_ne_nil k)] at h0
  exact eq_zero_of_head_decimal h0

/-- Behind an exit code of 0 stands the answer of `pwd`. -/
theorem changeDir_answer {k : Nat} {cwd rest : Str} (h0 : (trim (decimal k ++ '\n' :: cwd)).head? = some '0')
    (hrest : sliceFrom (trim (decimal k ++ '\n' :: cwd)) 1 = some rest) : trim rest = trim cwd := by
  obtain rfl := answer_zero h0
  obtain ⟨t, b, hsplit, hb, htrim⟩ := trim_answer 0 cwd
  rw [htrim] at hrest
  -- the numeral is the single byte that is sliced away
  have hcut : sliceFrom (decimal 0 ++ t) 1 = some t := sliceFrom_eq_some.2 ⟨decimal 0, rfl, rfl⟩
  rw [hcut] at hrest
  cases hrest
  have hnl : Blank ['\n'] := by simp [Blank, isWhite_newline]
  calc trim rest = trim (rest ++ b) := (trim_append_blank hb).symm
    _ = trim (['\n'] ++ cwd) := by rw [← hsplit]; rfl
    _ = trim cwd := trim_blank_append hnl

end ScpFs

theorem Server.dirs {σ : Type} (S : Server σ) : Dirs S.handler Sh.Plain fun p => isAbsolute p = true where
  root := rfl
  joined p hw := isAbsolute_absolutize hw p
  realpath := S.realpath
  pwd := S.pwd
  changeDir session dir st out st' rest hdir hr h0 hrest := by
    obtain ⟨k, cwd, rfl, habs⟩ := S.changeDir session dir st out st' hdir hr
    rw [ScpFs.changeDir_answer h0 hrest]
    exact habs

section
variable {σ : Type} {H : Handler Ssh σ} {Authed : σ → SshSession → Prop}

/-- Authenticated sessions stay so. -/
def Stays (Authed : σ → SshSession → Prop) (a b : σ) : Prop := ∀ s, Authed a s → Authed b s

namespace Sessions
variable (hS : Sessions H Authed)
include hS

theorem along (d : Bool) : Along H d (Stays Authed) where
  refl _ _ h := h
  trans h1 h2 s h := h2 s (h1 s h)
  call c hc env s h := hS.stays c env s (by rintro text rfl; exact hc) h

section
variable {κ : Type} {st st' : St Ssh κ σ} {session : SshSession}

theorem ask_stays {c : SshCall} {r : c.Reply} (h : (ask c : Remote κ σ _) H st = (.ok r, st'))
    (hc : Allowed true c) : Stays Authed st.env st'.env := by
  cases h
  exact (hS.along true).call c hc st.env

/-! ### A session that `connect` returns is authenticated -/

theorem tryIdentities_authed {agent : Agent} {username : Str} {cfg : SshAgentIdentity} {ids : List PublicKey}
    {e : RemoteError} (h : tryIdentities session agent username cfg ids (.error e) H st = (.ok (.ok ()), st')) :
    Authed st'.env session := by
  induction ids generalizing e st with
  | nil => cases h
  | cons identity ids ih =>
    unfold tryIdentities at h
    split at h
    · obtain ⟨r, st₁, hr, hk⟩ := bind_eq_ok h
      cases r with
      | ok _ =>
        cases hk
        obtain ⟨hreply, henv, _⟩ := ask_ok hr
        rw [henv]
        exact hS.agentUserauth _ _ _ _ _ hreply
      | error err => exact ih hk
    · exact ih h

theorem sessionAuthWithAgent_authed {username : Str} {cfg : SshAgentIdentity}
    (h : sessionAuthWithAgent session username cfg H st = (.ok (), st')) : Authed st'.env session := by
  obtain ⟨agent, st₁, _, h⟩ := bind_eq_ok h
  obtain ⟨_, st₂, _, h⟩ := bind_eq_ok h
  obtain ⟨_, st₃, _, h⟩ := bind_eq_ok h
  obtain ⟨identities, st₄, _, h⟩ := bind_eq_ok h
  obtain ⟨result, st₅, hids, h⟩ := bind_eq_ok h
  obtain ⟨_, st₆, hdis, h⟩ := bind_eq_ok h
  cases result with
  | ok _ =>
    cases h
    exact hS.ask_stays hdis trivial session (hS.tryIdentities_authed hids)
  | error e => cases h

theorem tryKeys_authed {username : Str} {password : Option Str} {keys : List PathBuf}
    (h : tryKeys session username password keys H st = (.ok (), st')) : Authed st'.env session := by
  induction keys generalizing st with
  | nil => cases h
  | cons key keys ih =>
    obtain ⟨r, st₁, hr, hk⟩ := bind_eq_ok h
    cases r with
    | ok _ =>
      cases hk
      obtain ⟨hreply, henv, _⟩ := ask_ok hr
      rw [henv]
      exact hS.userauthPubkeyFile _ _ _ _ _ hreply
    | error _ => exact ih hk

theorem sessionAuthWithPassword_authed {username : Str} {password : Option Str}
    (h : sessionAuthWithPassword session username password H st = (.ok (), st')) : Authed st'.env session := by
  obtain ⟨r, st₁, hr, hk⟩ := bind_eq_ok h
  cases r with
  | ok _ =>
    cases hk
    obtain ⟨hreply, henv, _⟩ := ask_ok hr
    rw [henv]
    exact hS.userauthPassword _ _ _ _ hreply
  | error _ => cases hk

theorem sessionAuth_authed {opts : SshOpts} {config : Config}
    (h : sessionAuth session opts config H st = (.ok (), st')) : Authed st'.env session := by
  obtain ⟨b, st₁, hr, hk⟩ := bind_eq_ok h
  cases b with
  | true =>
    cases hk
    exact hS.ask_stays hr trivial session (hS.authenticated _ _ (ask_ok hr).1)
  | false =>
    rw [if_neg Bool.false_ne_true] at hk
    cases hkey : resolveKey opts config with
    | some rsaKey => rw [hkey] at hk; exact hS.tryKeys_authed hk
    | none => rw [hkey] at hk; exact hS.sessionAuthWithPassword_authed hk

theorem authenticate_authed {opts : SshOpts} {config : Config}
    (h : authenticate session opts config H st = (.ok (), st')) : Authed st'.env session := by
  unfold authenticate at h
  cases hcfg : opts.sshAgentIdentity with
  | some cfg =>
    rw [hcfg] at h
    obtain ⟨r, st₁, hr, hk⟩ := bind_eq_ok h
    cases r with
    | ok _ =>
      cases hk
      exact hS.sessionAuthWithAgent_authed (attempt_eq_ok hr)
    | error _ => exact hS.sessionAuth_authed hk
  | none => rw [hcfg] at h; exact hS.sessionAuth_authed h

theorem connect_authed {opts : SshOpts} (h : RemotefsSsh.connect opts H st = (.ok session, st')) :
    Authed st'.env session := by
  obtain ⟨config, st₁, _, h⟩ := bind_eq_ok h
  obtain ⟨addrs, st₂, _, h⟩ := bind_eq_ok h
  cases addrs with
  | error _ => cases h
  | ok addrs =>
    obtain ⟨stream, st₃, _, h⟩ := bind_eq_ok h
    cases stream with
    | none => cases h
    | some stream =>
      obtain ⟨r, st₄, _, h⟩ := bind_eq_ok h
      cases r with
      | error _ => cases h
      | ok s =>
        obtain ⟨_, st₅, _, h⟩ := bind_eq_ok h
        obtain ⟨_, st₆, _, h⟩ := bind_eq_ok h
        obtain ⟨r, st₇, _, h⟩ := bind_eq_ok h
        cases r with
        | error _ => cases h
        | ok _ =>
          obtain ⟨_, st₈, hauth, h⟩ := bind_eq_ok h
          cases h
          exact hS.authenticate_authed hauth

end

end Sessions

end

/-! ## The SFTP client -/

variable {σ : Type}

namespace SftpFs

variable {H : Handler Ssh σ} {Authed : σ → SshSession → Prop} {Entered Dir : PathBuf → Prop} {st st' : St Ssh SftpFs σ}

structure Inv (Authed : σ → SshSession → Prop) (Dir : PathBuf → Prop) (st : St Ssh SftpFs σ) : Prop where
  wrkdir : Dir st.self.wrkdir
  paired : Paired st.self
  authed : ∀ s, st.self.session = some s → Authed st.env s

theorem inv_new (hD : Dirs H Entered Dir) (opts : SshOpts) (env : σ) : Inv Authed Dir ⟨new opts, env, []⟩ :=
  ⟨hD.root, rfl, fun _ h => by cases h⟩

theorem Inv.quiet (h : Inv Authed Dir st) {d : Bool} (hq : Quiet (Allowed d) (Stays Authed) st st') :
    Inv Authed Dir st' := by
  obtain ⟨hself, henv, _⟩ := hq
  refine ⟨?_, ?_, fun s hs => henv s (h.authed s ?_)⟩
  · rw [hself]; exact h.wrkdir
  · rw [hself]; exact h.paired
  · rw [← hself]; exact hs

/-- A part that only asks. -/
theorem Inv.good {α : Type} {m : Remote SftpFs σ α} (h : Inv Authed Dir st) (hm : Asks H true (Stays Authed) Paired m) :
    Good H (Inv Authed Dir) m st := .of_keeps hm h.paired fun _ => h.quiet

theorem Inv.good_bind {α β : Type} {m : Remote SftpFs σ α} {f : α → Remote SftpFs σ β} (h : Inv Authed Dir st)
    (hm : Asks H true (Stays Authed) Paired m)
    (hf : ∀ a st', m H st = (.ok a, st') → Inv Authed Dir st' → Stays Authed st.env st'.env →
      Good H (Inv Authed Dir) (f a) st') :
    Good H (Inv Authed Dir) (m >>= f) st :=
  .bind_keeps hm h.paired (fun _ => h.quiet) fun a st' hr hq => hf a st' hr (h.quiet hq) hq.env

theorem connect_good (hS : Sessions H Authed) (hD : Dirs H Entered Dir) (h : Inv Authed Dir st) :
    Good H (Inv Authed Dir) connect st := by
  have hA := hS.along true
  refine .bind_self (h.good_bind (connect_asks hA _) fun session st₁ hr h₁ _ => ?_)
  have ha₁ := hS.connect_authed hr
  refine h₁.good_bind (.ask hA trivial) fun _ st₂ _ h₂ hs₂ => ?_
  refine h₂.good_bind (.ask hA trivial) fun r st₃ _ h₃ hs₃ => ?_
  cases r with
  | error err => exact h₃.good (.throw hA _)
  | ok sftp =>
    refine h₃.good_bind (.ask hA trivial) fun r st₄ hr h₄ hs₄ => ?_
    cases r with
    | error err => exact h₄.good (.throw hA _)
    | ok p =>
      -- nothing can fail once the record is assigned to
      refine .of_ok rfl ⟨hD.realpath _ _ _ _ (ask_ok hr).1, rfl, fun s hs => ?_⟩
      cases hs
      exact hS.stays _ _ _ (by simp) (hs₄ _ (hs₃ _ (hs₂ _ ha₁)))

theorem disconnect_good (hS : Sessions H Authed) (h : Inv Authed Dir st) : Good H (Inv Authed Dir) disconnect st := by
  refine .bind_self ?_
  cases hs : st.self.session with
  | none => exact h.good (.throw (hS.along true) _)
  | some session =>
    obtain ⟨r, st₁, hr⟩ : ∃ r st₁, (ask (.disconnect session "Mandi!".toList) : Remote SftpFs σ _) H st =
        (.ok r, st₁) := ⟨_, _, rfl⟩
    obtain ⟨hreply, henv, _, hself⟩ := ask_ok hr
    refine .bind_ok hr hself ?_
    cases r with
    | error err =>
      refine .of_run rfl ⟨by rw [hself]; exact h.wrkdir, by rw [hself]; exact h.paired, fun s hs' => ?_⟩ (by simp) rfl
      rw [hself, hs] at hs'
      cases hs'
      rw [henv]
      exact hS.disconnectFailed _ _ _ _ hreply (h.authed session hs)
    | ok _ =>
      refine .of_ok rfl ⟨?_, rfl, fun s hs' => by cases hs'⟩
      rw [show st₁ = { st₁ with self := st.self } by rw [← hself]]
      exact h.wrkdir

theorem changeDir_good (hS : Sessions H Authed) (hD : Dirs H Entered Dir) (h : Inv Authed Dir st) (dir : PathBuf) :
    Good H (Inv Authed Dir) (changeDir dir) st := by
  have hA := hS.along true
  have hgate : Asks H true (Stays Authed) Paired (checkConnection : Remote SftpFs σ _) :=
    .of_looks (ρ := Refused) hA fun k _ => checkConnection_built k.handles.covers.sees
  have hstat : ∀ p, Asks H true (Stays Authed) Paired (stat p : Remote SftpFs σ _) := fun p =>
    .of_looks (ρ := Refused) hA fun k _ => stat_built k.handles.covers.sees p
  refine h.good_bind hgate fun _ st₁ _ h₁ _ => .bind_self ?_
  refine h₁.good_bind (hstat _) fun file st₂ _ h₂ _ => ?_
  cases hd : file.isDir with
  | false => exact h₂.good (.throw hA _)
  | true => exact .of_ok rfl ⟨hD.joined dir h₁.wrkdir, h₂.paired, h₂.authed⟩

theorem isConnected_eq (hup : ∀ env s, Authed env s → (H.reply (.authenticated s) env).1 = true)
    (h : Inv Authed Dir st) :
    (isConnected H st).1 = .ok st.self.session.isSome := by
  rw [isConnected, bind_ok self_run]
  cases hs : st.self.session with
  | none => rfl
  | some session => exact congrArg Out.ok (hup st.env session (h.authed session hs))

/-- Every operation keeps the invariant, unwraps no missing handle, and leaves the record as it was
when it fails. -/
theorem run_good (hS : Sessions H Authed) (hD : Dirs H Entered Dir) (h : Inv Authed Dir st) (op : SftpOp) :
    Good H (Inv Authed Dir) op.run st := by
  have hasks : op.assigns = false → Good H (Inv Authed Dir) op.run st := fun hop =>
    h.good (.of_built (hS.along true) (fun k _ => op.built hop k) (fun _ hk => hk) fun _ _ => SftpOp.makes_allowed)
  cases op with
  | connect => exact (connect_good hS hD h).dropValue
  | disconnect => exact disconnect_good hS h
  | changeDir dir => exact (changeDir_good hS hD h dir).dropValue
  | _ => exact hasks rfl

/-! ### Without a session -/

theorem isConnected_none (hs : st.self.session = none) : isConnected H st = (.ok false, st) := by
  rw [isConnected, bind_ok self_run, hs]
  rfl

theorem checkConnection_refuses (hs : st.self.session = none) :
    Refuses H (checkConnection : Remote SftpFs σ _) st :=
  ⟨.new .notConnected, by rw [checkConnection, bind_ok (isConnected_none hs)]; rfl⟩

theorem withSftp_refuses {α : Type} (hs : st.self.sftp = none) (path : PathBuf)
    (op : SshSftp → PathBuf → Remote SftpFs σ α) : withSftp path op H st = (.err (.new .notConnected), st) := by
  rw [withSftp, bind_ok self_run, hs]
  rfl

theorem upload_refuses (hs : st.self.session = none) (w : PointerWidth) (fuel : Nat)
    (opening : Remote SftpFs σ RemoteFile)
    (metadata : Metadata) : Refuses H (upload w fuel opening metadata) st :=
  ⟨.new .notConnected, by rw [upload, bind_ok (isConnected_none hs)]; rfl⟩

/-- A client without a session refuses everything else, and asks nothing. -/
theorem run_refuses (hs : st.self.session = none) (hf : st.self.sftp = none) (op : SftpOp) (hc : op ≠ .connect)
    (hi : op ≠ .isConnected) : Refuses H op.run st := by
  have hchecked : ∀ {α : Type} {f : Unit → Remote SftpFs σ α}, Refuses H (checkConnection >>= f) st :=
    (checkConnection_refuses hs).bind _
  have hwith : ∀ {α : Type} {path : PathBuf} {f : SshSftp → PathBuf → Remote SftpFs σ α},
      Refuses H (withSftp path f) st := ⟨_, withSftp_refuses hf _ _⟩
  cases op with
  | connect => exact absurd rfl hc
  | isConnected => exact absurd rfl hi
  | disconnect =>
    refine ⟨.new .notConnected, ?_⟩
    rw [SftpOp.run, disconnect, bind_ok self_run, hs]
    rfl
  | pwd => exact hchecked.bind _
  | changeDir dir => exact hchecked.bind _
  | listDir path => exact hwith.bind _
  | stat path => exact hwith.bind _
  | setstat path metadata => show Refuses H (setstat path metadata) st; exact hwith
  | existsPath path =>
    have hstat : stat path H st = (.err (.new .notConnected), st) := withSftp_refuses hf _ _
    refine Refuses.bind ⟨.new .notConnected, ?_⟩ _
    rw [existsPath, bind_ok (attempt_err hstat)]
    rfl
  | removeFile path => show Refuses H (removeFile path) st; exact hwith
  | removeDir path => show Refuses H (removeDir path) st; exact hwith
  | createDir path mode => exact hchecked
  | symlink path target => exact hchecked
  | copy src dest => exact hchecked
  | mov src dest => exact hchecked
  | exec cmd => exact hchecked.bind _
  | append path metadata => exact hwith.bind _
  | create path metadata => exact hwith.bind _
  | openRead path => exact hchecked.bind _
  | appendFile w fuel path metadata => exact (upload_refuses hs w fuel _ metadata).bind _
  | createFile w fuel path metadata => exact (upload_refuses hs w fuel _ metadata).bind _
  | openFile w fuel src =>
    refine Refuses.bind ⟨.new .notConnected, ?_⟩ _
    rw [openFile, bind_ok (isConnected_none hs)]
    rfl

/-- What holds in every reachable state. -/
structure Sound (S : Server σ) (st : St Ssh SftpFs σ) : Prop where
  wrkdir_absolute : isAbsolute st.self.wrkdir = true
  handles_paired : st.self.session.isSome = st.self.sftp.isSome
  connected_iff : (isConnected S.handler st).1 = .ok st.self.session.isSome
  no_unwrap : ∀ op : SftpOp, (op.run S.handler st).1 ≠ .panic .unwrapNone
  refuses : st.self.session = none → ∀ op : SftpOp, op ≠ .connect → op ≠ .isConnected → Refuses S.handler op.run st
  asks_nothing : st.self.session = none → isConnected S.handler st = (.ok false, st)
  err_keeps : ∀ (op : SftpOp) e st', op.run S.handler st = (.err e, st') → st'.self = st.self

theorem Inv.sound {S : Server σ} (h : Inv S.Authed (isAbsolute · = true) st) : Sound S st where
  wrkdir_absolute := h.wrkdir
  handles_paired := h.paired
  connected_iff := isConnected_eq S.connected h
  no_unwrap op := (run_good S.sessions S.dirs h op).unwrap
  refuses hs op := by
    have hf : st.self.sftp = none := by
      have := h.paired
      rw [Paired, hs] at this
      exact Option.not_isSome_iff_eq_none.1 (by rw [← this]; simp)
    exact run_refuses hs hf op
  asks_nothing := isConnected_none
  err_keeps op e st' hr := by
    have := (run_good S.sessions S.dirs h op).err e (by rw [hr])
    rwa [hr] at this

theorem runAll_keeps (hS : Sessions H Authed) (hD : Dirs H Entered Dir) (opts : SshOpts) (env : σ) (ops : List SftpOp) :
    Inv Authed Dir (runAll H SftpOp.run ops ⟨new opts, env, []⟩) :=
  runAll_inv (Inv Authed Dir) (fun op _ h => (run_good hS hD h op).inv) ops (inv_new hD opts env)

end SftpFs

/-! ## The SCP client -/

/-- A change of directory goes to one in `Entered`. -/
def ScpOp.Enters (Entered : PathBuf → Prop) (op : ScpOp) (st : St Ssh ScpFs σ) : Prop :=
  ∀ dir, op = .changeDir dir → Entered (absolutize st.self.wrkdir dir)

namespace ScpFs

variable {H : Handler Ssh σ} {Authed : σ → SshSession → Prop} {Entered Dir : PathBuf → Prop} {L : Libs}
  {st st' : St Ssh ScpFs σ}

structure Inv (Authed : σ → SshSession → Prop) (Dir : PathBuf → Prop) (st : St Ssh ScpFs σ) : Prop where
  wrkdir : Dir st.self.wrkdir
  authed : ∀ s, st.self.session = some s → Authed st.env s

theorem inv_new (hD : Dirs H Entered Dir) (opts : SshOpts) (env : σ) : Inv Authed Dir ⟨new opts, env, []⟩ :=
  ⟨hD.root, fun _ h => by cases h⟩

theorem Inv.quiet (h : Inv Authed Dir st) {d : Bool} (hq : Quiet (Allowed d) (Stays Authed) st st') :
    Inv Authed Dir st' := by
  obtain ⟨hself, henv, _⟩ := hq
  refine ⟨?_, fun s hs => henv s (h.authed s ?_)⟩
  · rw [hself]; exact h.wrkdir
  · rw [← hself]; exact hs

/-- A part that only asks. -/
theorem Inv.good {α : Type} {m : Remote ScpFs σ α} (h : Inv Authed Dir st)
    (hm : Asks H true (Stays Authed) (fun _ => True) m) :
    Good H (Inv Authed Dir) m st := .of_keeps hm trivial fun _ => h.quiet

theorem Inv.good_bind {α β : Type} {m : Remote ScpFs σ α} {f : α → Remote ScpFs σ β} (h : Inv Authed Dir st)
    (hm : Asks H true (Stays Authed) (fun _ => True) m)
    (hf : ∀ a st', m H st = (.ok a, st') → Inv Authed Dir st' → Quiet (Allowed true) (Stays Authed) st st' →
      Good H (Inv Authed Dir) (f a) st') :
    Good H (Inv Authed Dir) (m >>= f) st :=
  .bind_keeps hm trivial (fun _ => h.quiet) fun a st' hr hq => hf a st' hr (h.quiet hq) hq

theorem connect_good (hS : Sessions H Authed) (hD : Dirs H Entered Dir) (h : Inv Authed Dir st) :
    Good H (Inv Authed Dir) connect st := by
  have hA := hS.along true
  refine .bind_self (h.good_bind (connect_asks hA _) fun session st₁ hr h₁ _ => ?_)
  have ha₁ := hS.connect_authed hr
  refine h₁.good_bind (.ask hA trivial) fun _ st₂ _ h₂ hq₂ => ?_
  refine h₂.good_bind (performShellCmd_text_asks hA session rfl) fun output st₃ hr h₃ hq₃ => ?_
  refine .of_ok rfl ⟨hD.pwd session st₂ output st₃ hr, fun s hs => ?_⟩
  cases hs
  exact hq₃.env _ (hq₂.env _ ha₁)

theorem disconnect_good (hS : Sessions H Authed) (h : Inv Authed Dir st) : Good H (Inv Authed Dir) disconnect st := by
  refine .bind_self ?_
  cases hs : st.self.session with
  | none => exact h.good (.throw (hS.along true) _)
  | some session =>
    obtain ⟨r, st₁, hr⟩ : ∃ r st₁, (ask (.disconnect session "Mandi!".toList) : Remote ScpFs σ _) H st =
        (.ok r, st₁) := ⟨_, _, rfl⟩
    obtain ⟨hreply, henv, _, hself⟩ := ask_ok hr
    refine .bind_ok hr hself ?_
    cases r with
    | error err =>
      refine .of_run rfl ⟨by rw [hself]; exact h.wrkdir, fun s hs' => ?_⟩ (by simp) rfl
      rw [hself, hs] at hs'
      cases hs'
      rw [henv]
      exact hS.disconnectFailed _ _ _ _ hreply (h.authed session hs)
    | ok _ =>
      refine .of_ok rfl ⟨?_, fun s hs' => by cases hs'⟩
      rw [show st₁ = { st₁ with self := st.self } by rw [← hself]]
      exact h.wrkdir

theorem changeDir_good (hS : Sessions H Authed) (hD : Dirs H Entered Dir) (h : Inv Authed Dir st) {dir : PathBuf}
    (hdir : Entered (absolutize st.self.wrkdir dir)) : Good H (Inv Authed Dir) (changeDir dir) st := by
  have hA := hS.along true
  have hbuilt : ∀ k : ScpFs, Built (Piece k.handles.scope) True Refused k false [] (fun _ => k.session.isSome = true)
      (checkConnection : Remote ScpFs σ _) := fun k => checkConnection_built k.handles.covers.sees
  have hgate : Asks H true (Stays Authed) (fun _ => True) (checkConnection : Remote ScpFs σ _) :=
    .of_looks hA fun k _ => hbuilt k
  refine h.good_bind hgate fun _ st₁ hr h₁ hq₁ => .bind_self (.bind_self ?_)
  rw [← hq₁.self] at hdir
  obtain ⟨session, hs⟩ := Option.isSome_iff_exists.1 (value_of_built (hbuilt _) hr).1
  rw [← hq₁.self] at hs
  rw [hs]
  refine .bind_ok (unwrap_run session) rfl ?_
  refine h₁.good_bind (.attempt (performShellCmd_text_asks hA session rfl)) fun r st₂ hr h₂ _ => ?_
  cases r with
  | error err => exact h₂.good (.throw hA _)
  | ok output =>
    dsimp only
    split <;> rename_i h0
    · cases hrest : sliceFrom (trim output) 1 with
      | none => exact .of_run rfl h₂ (by simp) rfl
      | some rest =>
        exact .of_ok rfl ⟨hD.changeDir session _ st₁ output st₂ rest hdir (attempt_eq_ok hr) h0 hrest, h₂.authed⟩
    · exact h₂.good (.throw hA _)

theorem isConnected_eq (hup : ∀ env s, Authed env s → (H.reply (.authenticated s) env).1 = true)
    (h : Inv Authed Dir st) :
    (isConnected H st).1 = .ok st.self.session.isSome := by
  rw [isConnected, bind_ok self_run]
  cases hs : st.self.session with
  | none => rfl
  | some session => exact congrArg Out.ok (hup st.env session (h.authed session hs))

/-- Every operation keeps the invariant, unwraps no missing session, and leaves the record as it was
when it fails. -/
theorem run_good (hS : Sessions H Authed) (hD : Dirs H Entered Dir) (h : Inv Authed Dir st) {op : ScpOp}
    (hop : op.Enters Entered st) : Good H (Inv Authed Dir) (op.run L) st := by
  have hasks : op.assigns = false → Good H (Inv Authed Dir) (op.run L) st := fun hop =>
    h.good (.of_built (hS.along true) (fun k _ => op.built L hop k) (fun _ _ => trivial) fun _ _ => ScpOp.makes_allowed)
  cases op with
  | connect => exact (connect_good hS hD h).dropValue
  | disconnect => exact disconnect_good hS h
  | changeDir dir => exact (changeDir_good hS hD h (hop dir rfl)).dropValue
  | _ => exact hasks rfl

/-! ### Without a session -/

theorem isConnected_none (hs : st.self.session = none) : isConnected H st = (.ok false, st) := by
  rw [isConnected, bind_ok self_run, hs]
  rfl

theorem checkConnection_refuses (hs : st.self.session = none) :
    Refuses H (checkConnection : Remote ScpFs σ _) st :=
  ⟨.new .notConnected, by rw [checkConnection, bind_ok (isConnected_none hs)]; rfl⟩

/-- A client without a session refuses everything else, and asks nothing. -/
theorem run_refuses (hs : st.self.session = none) (op : ScpOp) (hc : op ≠ .connect) (hi : op ≠ .isConnected) :
    Refuses H (op.run L) st := by
  have hchecked : ∀ {α : Type} {f : Unit → Remote ScpFs σ α}, Refuses H (checkConnection >>= f) st :=
    (checkConnection_refuses hs).bind _
  cases op with
  | connect => exact absurd rfl hc
  | isConnected => exact absurd rfl hi
  | disconnect =>
    refine ⟨.new .notConnected, ?_⟩
    rw [ScpOp.run, disconnect, bind_ok self_run, hs]
    rfl
  | append path metadata => exact Refuses.bind ⟨.new .unsupportedFeature, rfl⟩ _
  | setstat path metadata => exact hchecked
  | removeFile path => exact hchecked
  | removeDir path => exact hchecked
  | removeDirAll path => exact hchecked
  | createDir path mode => exact hchecked
  | symlink path target => exact hchecked
  | copy src dest => exact hchecked
  | mov src dest => exact hchecked
  | _ => exact hchecked.bind _

/-- What holds in every reachable state, whatever directories were changed to. -/
structure Sound (S : Server σ) (L : Libs) (st : St Ssh ScpFs σ) : Prop where
  connected_iff : (isConnected S.handler st).1 = .ok st.self.session.isSome
  no_unwrap : ∀ op : ScpOp, (op.run L S.handler st).1 ≠ .panic .unwrapNone
  refuses : st.self.session = none → ∀ op : ScpOp, op ≠ .connect → op ≠ .isConnected → Refuses S.handler (op.run L) st
  asks_nothing : st.self.session = none → isConnected S.handler st = (.ok false, st)
  err_keeps : ∀ (op : ScpOp) e st', op.run L S.handler st = (.err e, st') → st'.self = st.self

theorem Inv.sound {S : Server σ} (h : Inv S.Authed (fun _ => True) st) (L : Libs) : Sound S L st where
  connected_iff := isConnected_eq S.connected h
  no_unwrap op := (run_good S.sessions (dirs_any _) h fun _ _ => trivial).unwrap
  refuses hs op := run_refuses hs op
  asks_nothing := isConnected_none
  err_keeps op e st' hr := by
    have hop : op.Enters (fun _ => True) st := fun _ _ => trivial
    have := (run_good S.sessions (dirs_any _) h hop).err e (by rw [hr])
    rwa [hr] at this

theorem runAll_keeps (hS : Sessions H Authed) (hD : Dirs H Entered Dir) (L : Libs) (opts : SshOpts) (env : σ)
    {ops : List ScpOp} (hops : EachStep H (ScpOp.run L) (ScpOp.Enters Entered) ops ⟨new opts, env, []⟩) :
    Inv Authed Dir (runAll H (ScpOp.run L) ops ⟨new opts, env, []⟩) :=
  runAll_inv_of (Inv Authed Dir) (fun _ _ hop h => (run_good hS hD h hop).inv) hops (inv_new hD opts env)

end ScpFs

/-- **After any sequence of operations** the handles come and go together, `is_connected` tells whether there is a
session, no `unwrap` can fail, a client without a session refuses everything, no failing operation changes the client,
and the working directory is absolute, for `ScpFs` if every directory that was changed to is plain in double quotes. -/
theorem client_state_machine (S : Server σ) (L : Libs) (opts : SshOpts) (env : σ) :
    (∀ ops : List SftpOp, SftpFs.Sound S (runAll S.handler SftpOp.run ops ⟨.new opts, env, []⟩)) ∧
      ∀ ops : List ScpOp, ScpFs.Sound S L (runAll S.handler (ScpOp.run L) ops ⟨.new opts, env, []⟩) ∧
        (EachStep S.handler (ScpOp.run L) (ScpOp.Enters Sh.Plain) ops ⟨.new opts, env, []⟩ →
          isAbsolute (runAll S.handler (ScpOp.run L) ops ⟨.new opts, env, []⟩).self.wrkdir = true) := by
  refine ⟨fun ops => (SftpFs.runAll_keeps S.sessions S.dirs opts env ops).sound, fun ops => ⟨?_, fun hops => ?_⟩⟩
  · exact (ScpFs.runAll_keeps S.sessions (dirs_any _) L opts env (eachStep_any fun _ _ _ _ => trivial)).sound L
  · exact (ScpFs.runAll_keeps S.sessions S.dirs L opts env hops).wrkdir

/-! ## A server whose shell runs the lines -/

/-- The only directories are the root and `/srv`. -/
def rootMachine : Sh.Machine Unit where
  home := ['/']
  enter _ _ dir := if dir = "/srv".toList then some dir else none
  utility _ _ _ := ([], 0, ())

/-- Everyone is authenticated. -/
def rootServer : Server (Unit × Str) where
  handler := site rootMachine (fun _ _ => .ok ⟨none, none, none, none, none, none⟩) fun w _ _ => w
  Authed _ _ := True
  sessions := sessions_any _
  connected _ _ _ := rfl
  realpath env f p q h := by cases h; rfl
  pwd session st out st' h := by
    have hparse : Sh.parse ShellCmd.pwd.text = some [[Sh.lits Sh.pwdWord]] := by decide
    obtain ⟨hout, -⟩ := (site_hosts rootMachine _ _).shell session _ st st' _ out
      (rootMachine.runLine_of_parse hparse _) h
    have hroot : (rootMachine.run [[Sh.lits Sh.pwdWord]] (rootMachine.start st.env.1)).out = "/\n".toList := rfl
    rw [hout, hroot]
    decide
  changeDir session dir st out st' hdir h := by
    obtain ⟨-, ⟨d, henter, hout⟩ | ⟨-, hout⟩⟩ := (site_hosts rootMachine _ _).cd hdir h
    · refine ⟨0, _, hout, ?_⟩
      unfold rootMachine at henter
      dsimp only at henter
      split at henter
      · rename_i hd
        cases henter
        rw [hd]
        decide
      · cases henter
    · exact ⟨1, _, hout, by decide⟩

def rootStart {κ : Type} (fs : κ) : St Ssh κ (Unit × Str) := ⟨fs, ((), []), []⟩

theorem client_state_machine_srv :
    isAbsolute (runAll rootServer.handler (ScpOp.run sampleLibs) [.connect, .changeDir "srv".toList]
      (rootStart (.new (.new "host".toList)))).self.wrkdir = true := by
  refine ((client_state_machine rootServer sampleLibs (.new "host".toList) ((), [])).2 _).2
    ⟨fun dir h => (by cases h), ?_,
    trivial⟩
  intro dir h
  cases h
  decide +kernel

/-- The answer of an `echo` in the name of the directory is stored in place of the one of `pwd`. -/
theorem client_stores_name :
    isAbsolute (runAll rootServer.handler (ScpOp.run sampleLibs) [.connect, .changeDir "x\"; echo 0rel; echo \"".toList]
      (rootStart (.new (.new "host".toList)))).self.wrkdir = false := by
  decide +kernel

end RemotefsSsh
