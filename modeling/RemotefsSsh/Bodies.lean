import RemotefsSsh.LsMatch
import RemotefsSsh.Pieces

/-!
# The bodies of the operations (ssh/commons.rs, ssh/scp.rs, ssh/sftp.rs)

Here the body of every function is gone through once: what it is put together of, in which order, what its record must
hold, and how it may fail (`…_built`). Which calls an operation makes, that it leaves the record alone, why it breaks
off, that it keeps to the protocol and to its plan: all this is read off these derivations elsewhere.

`connect`, `disconnect` and `change_dir` assign to the record (`ScpOp.assigns`); only what they call before is here.
-/

namespace RemotefsSsh

open Utf8 UnixPath Effect Prog

/-! ## ssh/commons.rs -/

/-- The calls on the way to a session. -/
def Connects : SshCall → Prop
  | .configOpen _ | .configParse .. | .toSocketAddrs _ | .tcpConnect _ | .tcpConnectTimeout .. | .sessionNew
  | .setTcpStream .. | .setCompress .. | .methodPref .. | .handshake _ | .agent _ | .agentConnect _
  | .agentListIdentities _ | .agentIdentities _ | .agentUserauth .. | .agentDisconnect _ | .userauthPubkeyFile ..
  | .userauthPassword .. | .authenticated _ => True
  | _ => False

section
variable {κ σ : Type} {ρ : RemoteError → Prop} {υ : Prop} {k : κ}

/-- Looking, as long as nothing was done. -/
abbrev Connecting {κ σ α : Type} (υ : Prop) (ρ : RemoteError → Prop) (k : κ) (m : Remote κ σ α) : Prop :=
  Built (Calls work? Connects ρ) υ ρ k false [] (fun _ => True) m

theorem connecting {c : SshCall} (hc : Connects c) : Connecting υ ρ k (ask c : Remote κ σ _) :=
  idle_built hc (by cases c <;> first | rfl | exact hc.elim)

theorem configParse_built (path : PathBuf) (host : Str) (rules : ParseRule) :
    Connecting υ ρ k (Config.parse path host rules : Remote κ σ _) := by
  unfold Config.parse
  refine .look (connecting (c := .configOpen path) trivial) fun r _ => ?_
  cases r with
  | error e => exact .throw nofun
  | ok _ =>
    refine .look (connecting (c := .configParse path rules host) trivial) fun r _ => ?_
    cases r with
    | error e => exact .throw nofun
    | ok params => exact .pure trivial

theorem configTryFrom_built (opts : SshOpts) : Connecting υ ρ k (Config.tryFrom opts : Remote κ σ _) := by
  unfold Config.tryFrom
  cases opts.configFile with
  | none => exact .pure trivial
  | some path => exact .look (configParse_built _ _ _) fun _ _ => .pure trivial

theorem tryAddresses_built (timeout : Duration) (addrs : List SocketAddr) :
    Connecting υ ρ k (tryAddresses timeout addrs : Remote κ σ _) := by
  induction addrs with
  | nil => exact .pure trivial
  | cons a as ih =>
    have htcp : Connecting υ ρ k (tcpConnect a timeout : Remote κ σ _) :=
      .ite (fun _ => connecting (c := .tcpConnect a) trivial) fun _ =>
        connecting (c := .tcpConnectTimeout a timeout) trivial
    refine .look htcp fun r _ => ?_
    cases r with
    | ok stream => exact .pure trivial
    | error _ => exact ih

theorem tryAttempts_built (timeout : Duration) (addrs : List SocketAddr) (n : Nat) :
    Connecting υ ρ k (tryAttempts timeout addrs n : Remote κ σ _) := by
  induction n with
  | zero => exact .pure trivial
  | succ n ih =>
    refine .look (tryAddresses_built timeout addrs) fun r _ => ?_
    cases r with
    | some stream => exact .pure trivial
    | none => exact ih

theorem methodPref_built (session : SshSession) (t : SshMethodType) (algos : Str) :
    Connecting υ ρ k (methodPref session t algos : Remote κ σ _) := by
  refine .look (connecting (c := .methodPref session t algos) trivial) fun r _ => ?_
  cases r with
  | error err => exact .throw nofun
  | ok _ => exact .pure trivial

theorem setMethods_built (session : SshSession) (ms : List KeyMethod) :
    Connecting υ ρ k (setMethods session ms : Remote κ σ _) := by
  induction ms with
  | nil => exact .pure trivial
  | cons m ms ih => exact .look (methodPref_built _ _ _) fun _ _ => ih

theorem setParam_built (session : SshSession) (ts : List SshMethodType) (algos : Option (List Str)) :
    Connecting υ ρ k (setParam session ts algos : Remote κ σ _) := by
  cases algos with
  | none => exact .pure trivial
  | some algos =>
    induction ts with
    | nil => exact .pure trivial
    | cons t ts ih => exact .look (methodPref_built _ _ _) fun _ _ => ih

theorem setAlgoPrefs_built (session : SshSession) (opts : SshOpts) (config : Config) :
    Connecting υ ρ k (setAlgoPrefs session opts config : Remote κ σ _) := by
  unfold setAlgoPrefs
  refine .look (S := fun _ => True) ?_ fun _ _ => ?_
  · cases config.params.compression with
    | none => exact .pure trivial
    | some compress => exact connecting (c := .setCompress session compress) trivial
  exact .look (setParam_built _ _ _) fun _ _ => .look (setParam_built _ _ _) fun _ _ => .look (setParam_built _ _ _)
    fun _ _ => .look (setParam_built _ _ _) fun _ _ => setMethods_built _ _

theorem agentCall_built {α : Type} {m : Remote κ σ (Except SshError α)} (hm : Connecting υ ρ k m) :
    Connecting υ ρ k (agentCall m) := by
  refine .look hm fun r _ => ?_
  cases r with
  | error err => exact .throw nofun
  | ok a => exact .pure trivial

theorem tryIdentities_built (session : SshSession) (agent : Agent) (username : Str) (cfg : SshAgentIdentity)
    (ids : List PublicKey) (result : RemoteResult Unit) :
    Connecting υ ρ k (tryIdentities session agent username cfg ids result : Remote κ σ _) := by
  induction ids generalizing result with
  | nil => exact .pure trivial
  | cons identity ids ih =>
    refine .ite (fun _ => ?_) fun _ => ih _
    refine .look (connecting (c := .agentUserauth session agent username identity) trivial) fun r _ => ?_
    cases r with
    | ok _ => exact .pure trivial
    | error err => exact ih _

theorem sessionAuthWithAgent_built (session : SshSession) (username : Str) (cfg : SshAgentIdentity) :
    Connecting υ ρ k (sessionAuthWithAgent session username cfg : Remote κ σ _) := by
  refine .look (agentCall_built (connecting (c := .agent session) trivial)) fun agent _ => ?_
  refine .look (agentCall_built (connecting (c := .agentConnect agent) trivial)) fun _ _ => ?_
  refine .look (agentCall_built (connecting (c := .agentListIdentities agent) trivial)) fun _ _ => ?_
  refine .look (agentCall_built (connecting (c := .agentIdentities agent) trivial)) fun ids _ => ?_
  refine .look (tryIdentities_built _ _ _ _ _ _) fun result _ => ?_
  refine .look (connecting (c := .agentDisconnect agent) trivial) fun _ _ => ?_
  cases result with
  | ok _ => exact .pure trivial
  | error e => exact .throw nofun

theorem tryKeys_built (session : SshSession) (username : Str) (password : Option Str) (keys : List PathBuf) :
    Connecting υ ρ k (tryKeys session username password keys : Remote κ σ _) := by
  induction keys with
  | nil => exact .throw nofun
  | cons key keys ih =>
    refine .look (connecting (c := .userauthPubkeyFile session username key password) trivial) fun r _ => ?_
    cases r with
    | ok _ => exact .pure trivial
    | error _ => exact ih

theorem sessionAuthWithPassword_built (session : SshSession) (username : Str) (password : Option Str) :
    Connecting υ ρ k (sessionAuthWithPassword session username password : Remote κ σ _) := by
  refine .look (connecting (c := .userauthPassword session username (password.getD [])) trivial) fun r _ => ?_
  cases r with
  | error err => exact .throw nofun
  | ok _ => exact .pure trivial

theorem sessionAuth_built (session : SshSession) (opts : SshOpts) (config : Config) :
    Connecting υ ρ k (sessionAuth session opts config : Remote κ σ _) := by
  refine .look (connecting (c := .authenticated session) trivial) fun b _ => .ite (fun _ => .pure trivial) fun _ => ?_
  cases resolveKey opts config with
  | some rsaKey => exact tryKeys_built _ _ _ _
  | none => exact sessionAuthWithPassword_built _ _ _

theorem authenticate_built (session : SshSession) (opts : SshOpts) (config : Config) :
    Connecting υ ρ k (authenticate session opts config : Remote κ σ _) := by
  unfold authenticate
  cases opts.sshAgentIdentity with
  | none => exact sessionAuth_built _ _ _
  | some cfg =>
    refine .look (.attempt (sessionAuthWithAgent_built _ _ _)) fun r _ => ?_
    cases r with
    | ok _ => exact .pure trivial
    | error _ => exact sessionAuth_built _ _ _

theorem connect_built (opts : SshOpts) : Connecting υ ρ k (RemotefsSsh.connect opts : Remote κ σ _) := by
  refine .look (configTryFrom_built opts) fun config _ => ?_
  refine .look (connecting (c := .toSocketAddrs config.address) trivial) fun r _ => ?_
  cases r with
  | error err => exact .throw nofun
  | ok addrs =>
    refine .look (tryAttempts_built _ _ _) fun stream _ => ?_
    cases stream with
    | none => exact .throw nofun
    | some stream =>
      refine .look (connecting (c := .sessionNew) trivial) fun r _ => ?_
      cases r with
      | error err => exact .throw nofun
      | ok session =>
        refine .look (connecting (c := .setTcpStream session stream) trivial) fun _ _ => ?_
        refine .look (setAlgoPrefs_built _ _ _) fun _ _ => ?_
        refine .look (connecting (c := .handshake session) trivial) fun r _ => ?_
        cases r with
        | error err => exact .throw nofun
        | ok _ => exact .look (authenticate_built _ _ _) fun _ _ => .pure trivial

end

/-! ## Pieces of the operations -/

section
variable {κ σ : Type} {X : Scope} {ρ : RemoteError → Prop} {υ : Prop} {k : κ} {b : Bool} {c : ShellCmd}

theorem request_built {c : SshCall} (hc : X.calls c) :
    Built (Piece X) υ ρ k b (work? c).toList (fun _ => True) (ask c : Remote κ σ _) :=
  .piece (.call hc)

theorem question_built {c : SshCall} (hc : X.calls c) (hno : work? c = none) :
    Built (Piece X) υ ρ k b [] (fun _ => True) (ask c : Remote κ σ _) := by
  have hcall : Built (Piece X) υ ρ k b (work? c).toList (fun _ => True) (ask c : Remote κ σ _) := request_built hc
  rwa [hno] at hcall

theorem work_of_looks (hc : c.looks = true) : c.work = [] := if_pos hc

theorem work_of_not_looks (hc : c.looks = false) : c.work = [ran c] := if_neg (Bool.eq_false_iff.1 hc)

/-- A line whose output is read. -/
theorem reading_built {s : SshSession} (hs : X.session s) (hc : X.cmds c) (hrc : c.withRc = false)
    (hlooks : c.looks = true) :
    Built (Piece X) υ ρ k b [] (fun _ => True) (performShellCmd s c.text : Remote κ σ _) := by
  have hpiece : Built (Piece X) υ ρ k b c.work (fun _ => True) (performShellCmd s c.text : Remote κ σ _) :=
    .piece (.shell hs hc hrc)
  rwa [work_of_looks hlooks] at hpiece

/-- A command whose exit code is looked at. -/
theorem judged_built {s : SshSession} (hs : X.session s) (hc : X.cmds c) (hrc : c.withRc = true) :
    Built (Piece X) υ ρ k b c.work (fun _ => True) (performShellCmdWithRc s c.text : Remote κ σ _) :=
  .piece (.shellWithRc hs hc hrc)

end

/-! ## ssh/scp.rs -/

namespace ScpFs

section
variable {σ : Type} {X : Scope} {ρ : RemoteError → Prop} {υ : Prop} {k : ScpFs} {b : Bool}

section
variable (hX : X.Sees k.handles)
include hX

theorem isConnected_built :
    Built (Piece X) υ ρ k b [] (fun r => r = true → k.session.isSome = true) (isConnected : Remote ScpFs σ _) := by
  refine .self ?_
  cases hs : k.session with
  | some s => exact .imp (question_built (c := .authenticated s) (hX.authenticated s hs) rfl) fun _ _ _ => rfl
  | none => exact .pure nofun

/-- Behind the gate the session is there. -/
theorem checkConnection_built :
    Built (Piece X) υ ρ k false [] (fun _ => k.session.isSome = true) (checkConnection : Remote ScpFs σ _) :=
  .look (isConnected_built hX) fun _ hr => .ite (fun h => .pure (hr h)) fun _ => .throw nofun

end

section
variable (hX : X.Tests k.handles)
include hX

theorem runTest_built (hup : k.session.isSome = true) {cmd : ShellCmd} (hcmd : X.cmds cmd) (hrc : cmd.withRc = true)
    (hlooks : cmd.looks = true) : Built (Piece X) υ ρ k false [] (fun _ => True) (runTest cmd : Remote ScpFs σ _) := by
  refine .self (.unwrap (fun _ => hup) fun s hs => ?_)
  have htest : Built (Piece X) υ ρ k false cmd.work (fun _ => True)
      (performShellCmdWithRc s cmd.text : Remote ScpFs σ _) := judged_built (hX.session s hs) hcmd hrc
  rw [work_of_looks hlooks] at htest
  refine .look (.attempt htest) fun r _ => ?_
  cases r with
  | ok r => exact .pure trivial
  | error err => exact .throw nofun

theorem existsPath_built {path : PathBuf} (hcmd : X.cmds (.existsPath (absolutize k.wrkdir path))) :
    Built (Piece X) υ ρ k false [] (fun _ => True) (existsPath path : Remote ScpFs σ _) :=
  .look (checkConnection_built hX.toSees) fun _ hup => .self (runTest_built hX hup hcmd rfl rfl)

theorem existsOrFalse_built {path : PathBuf} (hcmd : X.cmds (.existsPath (absolutize k.wrkdir path))) :
    Built (Piece X) υ ρ k b [] (fun _ => True) (existsOrFalse path : Remote ScpFs σ _) := by
  refine .look (.attempt (existsPath_built hX hcmd)) fun r _ => ?_
  cases r with
  | ok b => exact .pure trivial
  | error _ => exact .pure trivial

theorem exec_built {cmd : Str} (hcmd : X.cmds (.execAt k.wrkdir cmd)) :
    Built (Piece X) υ ρ k false [ran (.execAt k.wrkdir cmd)] (fun _ => True) (exec cmd : Remote ScpFs σ _) :=
  .look (checkConnection_built hX.toSees) fun _ hup => .self (.unwrap (fun _ => hup) fun s hs => .self
    (judged_built (c := .execAt k.wrkdir cmd) (hX.session s hs) hcmd rfl))

end

variable (hX : X.Covers k.handles)
include hX

theorem pwd_built : Built (Piece X) υ ρ k false [] (fun _ => True) (pwd : Remote ScpFs σ _) :=
  .look (checkConnection_built hX.sees) fun _ _ => .self (.pure trivial)

theorem isDirectory_built (hup : k.session.isSome = true) (path : PathBuf) :
    Built (Piece X) υ ρ k false [] (fun _ => True) (isDirectory path : Remote ScpFs σ _) :=
  .self (runTest_built hX.tests hup (hX.cmds _) rfl rfl)

/-- No line breaks the parser. -/
theorem parseLine_built (L : Libs) (path : PathBuf) (line : Str) :
    Built (Piece X) υ ρ k false [] (fun _ => True) (parseLine L path line : Remote ScpFs σ _) := by
  refine .look (question_built (c := .utcYear) (hX.calls _ trivial) rfl) fun year _ => ?_
  have hpure : ∀ r : Except Unit File, Built (Piece X) υ ρ k false [] (fun _ => True) (pure r : Remote ScpFs σ _) :=
    fun r => .pure trivial
  rcases parseLsOutput_cases L year path line with ⟨f, h⟩ | h
  · rw [h]
    exact hpure (.ok f)
  · rw [h]
    exact hpure (.error ())

theorem listLines_built (L : Libs) (path : PathBuf) (ls : List Str) :
    Built (Piece X) υ ρ k false [] (fun _ => True) (listLines L path ls : Remote ScpFs σ _) := by
  induction ls with
  | nil => exact .pure trivial
  | cons line rest ih =>
    refine .look (parseLine_built hX L path line) fun r _ => ?_
    cases r with
    | ok entry => exact .look ih fun _ _ => .pure trivial
    | error _ => exact ih

theorem listDir_built (L : Libs) (path : PathBuf) :
    Built (Piece X) υ ρ k false [] (fun _ => True) (listDir L path : Remote ScpFs σ _) := by
  refine .look (checkConnection_built hX.sees) fun _ hup =>
    .self (.look (existsOrFalse_built hX.tests (hX.cmds _)) fun _ _ => ?_)
  refine .ite (fun _ => .self (.unwrap (fun _ => hup) fun s hs => ?_)) fun _ => .throw nofun
  refine .look (.attempt (reading_built (hX.session s hs) (hX.cmds _) rfl rfl)) fun r _ => ?_
  cases r with
  | ok output => exact listLines_built hX L _ _
  | error err => exact .throw nofun

theorem stat_built (L : Libs) (path : PathBuf) :
    Built (Piece X) υ ρ k false [] (fun _ => True) (stat L path : Remote ScpFs σ _) := by
  refine .look (checkConnection_built hX.sees) fun _ hup => .self (.look (isDirectory_built hX hup _) fun b _ => ?_)
  refine .self (.unwrap (fun _ => hup) fun s hs => ?_)
  have hread : Built (Piece X) υ ρ k false [] (fun _ => True) (performShellCmd s (if b then
      ShellCmd.statDir (absolutize k.wrkdir path) else .statFile (absolutize k.wrkdir path)).text :
        Remote ScpFs σ _) := by
    cases b with
    | true => exact reading_built (hX.session s hs) (hX.cmds _) rfl rfl
    | false => exact reading_built (hX.session s hs) (hX.cmds _) rfl rfl
  refine .look (.attempt hread) fun r _ => ?_
  cases r with
  | error err => exact .throw nofun
  | ok line =>
    cases parent (absolutize k.wrkdir path) with
    | none => exact .throw nofun
    | some parent =>
      refine .look (parseLine_built hX L _ _) fun r _ => ?_
      cases r with
      | ok entry => exact .pure trivial
      | error _ => exact .throw nofun

/-! ### Changes -/

theorem runRc_built (hup : k.session.isSome = true) {cmd : ShellCmd} (hrc : cmd.withRc = true)
    (hlooks : cmd.looks = false)
    {bad : RemoteError} {kind : RemoteErrorType} (hbad : bad.kind.refuses = false) (hkind : kind.refuses = false) :
    Built (Piece X) υ Refused k b [ran cmd] (fun _ => True) (runRc cmd bad kind : Remote ScpFs σ _) := by
  refine .self (.unwrap (fun _ => hup) fun s hs => ?_)
  have hrun : Built (Piece X) υ Refused k b cmd.work (fun _ => True)
      (performShellCmdWithRc s cmd.text : Remote ScpFs σ _) := judged_built (hX.session s hs) (hX.cmds _) hrc
  rw [work_of_not_looks hlooks] at hrun
  refine .tried_look hrun ?_ fun e => ⟨_, rfl, not_refused hkind⟩
  rintro ⟨rc, _⟩ _
  exact .ite (fun _ => .pure trivial) fun _ => .throw fun _ => not_refused hbad

theorem assertStatCommand_built (hup : k.session.isSome = true) {cmd : ShellCmd} (hrc : cmd.withRc = true)
    (hlooks : cmd.looks = false) :
    Built (Piece X) υ Refused k b [ran cmd] (fun _ => True) (assertStatCommand cmd : Remote ScpFs σ _) :=
  runRc_built hX hup hrc hlooks rfl rfl

theorem touch_built (hup : k.session.isSome = true) (L : Libs) (t : Option SystemTime) {cmd : Str → ShellCmd}
    (hrc : ∀ text, (cmd text).withRc = true) (hlooks : ∀ text, (cmd text).looks = false)
    (hlate : ∀ t', t = some t' → L.chrono.formatUtc t' "%Y%m%d%H%M.%S".toList = none → X.late) :
    Built (Piece X) υ Refused k b (touchPlan L t cmd) (fun _ => True)
      (Prog.ifSome t fun t => do assertStatCommand (cmd (← touchTime L t)) : Remote ScpFs σ _) := by
  cases t with
  | none => exact .pure trivial
  | some t =>
    simp only [touchPlan, Option.bind_some, Prog.ifSome]
    refine .look (.piece (.fmtTime (hlate t rfl))) fun text htext => ?_
    rw [htext]
    exact assertStatCommand_built hX hup (hrc text) (hlooks text)

/-- A test of `path`, and then one way or the other. -/
theorem tested_built {path : PathBuf} {plan : List Work} {m n : Remote ScpFs σ Unit}
    (hm : Built (Piece X) υ Refused k b plan (fun _ => True) m)
    (hn : Built (Piece X) υ Refused k b plan (fun _ => True) n) :
    Built (Piece X) υ Refused k b plan (fun _ => True) (do if ← existsOrFalse path then m else n) :=
  .look (existsOrFalse_built hX.tests (hX.cmds _)) fun _ _ => .ite (fun _ => hm) fun _ => hn

theorem setstat_built (L : Libs) (path : PathBuf) (metadata : Metadata)
    (hlate : ∀ t, (metadata.accessed = some t ∨ metadata.modified = some t) →
      L.chrono.formatUtc t "%Y%m%d%H%M.%S".toList = none → X.late) :
    Built (Piece X) υ Refused k false ((ScpOp.setstat path metadata).plan L k.wrkdir) (fun _ => True)
      (setstat L path metadata : Remote ScpFs σ _) := by
  refine .look (checkConnection_built hX.sees) fun _ hup => .self (tested_built hX ?_ (.throw nofun))
  refine .work (.ifSome fun mode _ => assertStatCommand_built hX hup rfl rfl) fun _ _ => ?_
  refine .work (.ifSome fun user _ => assertStatCommand_built hX hup rfl rfl) fun _ _ => ?_
  exact .work (touch_built hX hup L _ (fun _ => rfl) (fun _ => rfl) fun t ht => hlate t (Or.inl ht)) fun _ _ =>
    touch_built hX hup L _ (fun _ => rfl) (fun _ => rfl) fun t ht => hlate t (Or.inr ht)

/-- The three removals. -/
theorem remove_built {cmd : PathBuf → ShellCmd} (hrc : ∀ p, (cmd p).withRc = true) (hlooks : ∀ p, (cmd p).looks = false)
    {bad : RemoteError} (hbad : bad.kind.refuses = false) (path : PathBuf) :
    Built (Piece X) υ Refused k false [ran (cmd (absolutize k.wrkdir path))] (fun _ => True) (do
      checkConnection
      let path := absolutize (← Prog.self).wrkdir path
      if ← existsOrFalse path then runRc (cmd path) bad .protocolError
      else Prog.throw (.new .noSuchFileOrDirectory) : Remote ScpFs σ Unit) :=
  .look (checkConnection_built hX.sees) fun _ hup => .self (tested_built hX
    (runRc_built hX hup (hrc _) (hlooks _) hbad rfl) (.throw nofun))

theorem createDir_built (path : PathBuf) (mode : UnixPex) :
    Built (Piece X) υ Refused k false [ran (.createDir mode.toU32 (absolutize k.wrkdir path))] (fun _ => True)
      (createDir path mode : Remote ScpFs σ _) :=
  .look (checkConnection_built hX.sees) fun _ hup => .self (tested_built hX (.throw nofun)
    (runRc_built hX hup rfl rfl rfl rfl))

theorem symlink_built (path target : PathBuf) :
    Built (Piece X) υ Refused k false [ran (.symlink target (absolutize k.wrkdir path))] (fun _ => True)
      (symlink path target : Remote ScpFs σ _) :=
  .look (checkConnection_built hX.sees) fun _ hup => .self (tested_built hX
    (tested_built hX (.throw nofun) (runRc_built hX hup rfl rfl rfl rfl)) (.throw nofun))

theorem copy_built (src dest : PathBuf) :
    Built (Piece X) υ Refused k false [ran (.copy (absolutize k.wrkdir src) (absolutize k.wrkdir dest))] (fun _ => True)
      (copy src dest : Remote ScpFs σ _) :=
  .look (checkConnection_built hX.sees) fun _ hup => .self (tested_built hX
    (.self (runRc_built hX hup rfl rfl rfl rfl)) (.throw nofun))

theorem mov_built (src dest : PathBuf) :
    Built (Piece X) υ Refused k false [ran (.mov (absolutize k.wrkdir src) (absolutize k.wrkdir dest))] (fun _ => True)
      (mov src dest : Remote ScpFs σ _) :=
  .look (checkConnection_built hX.sees) fun _ hup => .self (tested_built hX
    (.self (runRc_built hX hup rfl rfl rfl rfl)) (.throw nofun))

theorem create_built (path : PathBuf) (metadata : Metadata) (L : Libs) :
    Built (Piece X) υ Refused k false ((ScpOp.create path metadata).plan L k.wrkdir) (fun _ => True)
      (create path metadata : Remote ScpFs σ _) := by
  refine .look (checkConnection_built hX.sees) fun _ hup => .self (.self (.unwrap (fun _ => hup) fun s hs => ?_))
  refine .look (question_built (c := .setBlocking s true) (hX.calls _ hs) rfl) fun _ _ => ?_
  refine .self (.unwrap (fun _ => hup) fun s hs => .work_look
    (request_built (c := .scpSend s ..) (hX.calls _ hs)) fun r _ => ?_)
  cases r with
  | ok channel => exact .pure trivial
  | error err => exact .throw fun _ => not_refused rfl

theorem openRead_built (path : PathBuf) :
    Built (Piece X) υ ρ k false [] (fun _ => True) (openRead path : Remote ScpFs σ _) := by
  refine .look (checkConnection_built hX.sees) fun _ hup =>
    .self (.look (existsOrFalse_built hX.tests (hX.cmds _)) fun _ _ => ?_)
  refine .ite (fun _ => .self (.unwrap (fun _ => hup) fun s hs => ?_)) fun _ => .throw nofun
  refine .look (question_built (c := .setBlocking s true) (hX.calls _ hs) rfl) fun _ _ => ?_
  refine .self (.unwrap (fun _ => hup) fun s hs => .look
    (question_built (c := .scpRecv s _) (hX.calls _ hs) rfl) fun r _ => ?_)
  cases r with
  | ok channel => exact .pure trivial
  | error err => exact .throw nofun

end

end ScpFs

/-! ## ssh/sftp.rs -/

namespace SftpFs

/-- The two handles come and go together. -/
def Paired (fs : SftpFs) : Prop := fs.session.isSome = fs.sftp.isSome

section
variable {σ α : Type} {X : Scope} {ρ : RemoteError → Prop} {υ : Prop} {k : SftpFs} {b : Bool}
    {plan : List Work} {Q : α → Prop}

theorem withSftp_built {path : PathBuf} {op : SshSftp → PathBuf → Remote SftpFs σ α}
    (hop : ∀ f, k.sftp = some f → Built (Piece X) υ ρ k false plan Q (op f (absolutize k.wrkdir path))) :
    Built (Piece X) υ ρ k false plan Q (withSftp path op) := by
  refine .self ?_
  cases hf : k.sftp with
  | none => exact .throw nofun
  | some f => exact .self (hop f hf)

/-- A question; its failure is passed on. -/
theorem orKind_looks {kind : RemoteErrorType} {m : Remote SftpFs σ (Except SshError α)}
    (hm : Built (Piece X) υ ρ k false [] (fun _ => True) m) :
    Built (Piece X) υ ρ k false [] (fun _ => True) (orKind kind m) := by
  refine .look hm fun r _ => ?_
  cases r with
  | ok a => exact .pure trivial
  | error e => exact .throw nofun

/-- A change; it is not refused any more. -/
theorem orKind_built {kind : RemoteErrorType} {m : Remote SftpFs σ (Except SshError α)}
    (hm : Built (Piece X) υ Refused k b plan (fun _ => True) m) (hkind : kind.refuses = false) :
    Built (Piece X) υ Refused k b plan (fun _ => True) (orKind kind m) := by
  refine .work_look hm fun r _ => ?_
  cases r with
  | ok a => exact .pure trivial
  | error e => exact .throw fun _ => not_refused hkind

/-- Both handles are there where one is. -/
theorem unwrapSftp_built (hup : k.session.isSome = true) {f : SshSftp → Remote SftpFs σ α}
    (hf : ∀ c, k.sftp = some c → Built (Piece X) (Paired k) ρ k b plan Q (f c)) :
    Built (Piece X) (Paired k) ρ k b plan Q (Prog.self >>= fun fs => Prog.unwrap fs.sftp >>= f) :=
  .self (.unwrap (fun hpaired => hpaired ▸ hup) hf)

section
variable (hX : X.Sees k.handles)
include hX

theorem isConnected_built :
    Built (Piece X) υ ρ k b [] (fun r => r = true → k.session.isSome = true) (isConnected : Remote SftpFs σ _) := by
  refine .self ?_
  cases hs : k.session with
  | some s => exact .imp (question_built (c := .authenticated s) (hX.authenticated s hs) rfl) fun _ _ _ => rfl
  | none => exact .pure nofun

/-- Behind the gate the session is there. -/
theorem checkConnection_built :
    Built (Piece X) υ ρ k false [] (fun _ => k.session.isSome = true) (checkConnection : Remote SftpFs σ _) :=
  .look (isConnected_built hX) fun _ hr => .ite (fun h => .pure (hr h)) fun _ => .throw nofun

theorem pwd_built : Built (Piece X) υ ρ k false [] (fun _ => True) (pwd : Remote SftpFs σ _) :=
  .look (checkConnection_built hX) fun _ _ => .self (.pure trivial)

theorem linkTarget_built (hup : υ → k.sftp.isSome = true) (path : PathBuf) (metadata : FileStat) :
    Built (Piece X) υ ρ k false [] (fun _ => True) (linkTarget path metadata : Remote SftpFs σ _) := by
  refine .ite (fun _ => .self (.unwrap hup fun f hf => ?_)) fun _ => .pure trivial
  refine .look (question_built (c := .readlink f path) (hX.readlink f path hf) rfl) fun r _ => ?_
  cases r with
  | ok target => exact .pure trivial
  | error _ => exact .pure trivial

theorem makeFsentry_built {f : SshSftp} (hf : k.sftp = some f) (path : PathBuf) (metadata : FileStat) :
    Built (Piece X) υ ρ k false [] (fun _ => True) (makeFsentry path metadata : Remote SftpFs σ _) :=
  .look (linkTarget_built hX (fun _ => by rw [hf]; rfl) path metadata) fun _ _ => .pure trivial

theorem makeFsentries_built {f : SshSftp} (hf : k.sftp = some f) (es : List (PathBuf × FileStat)) :
    Built (Piece X) υ ρ k false [] (fun _ => True) (makeFsentries es : Remote SftpFs σ _) := by
  induction es with
  | nil => exact .pure trivial
  | cons e es ih => exact .look (makeFsentry_built hX hf _ _) fun _ _ => .look ih fun _ _ => .pure trivial

theorem listDir_built (hdir : ∀ f p, k.sftp = some f → X.calls (.readdir f p)) (path : PathBuf) :
    Built (Piece X) υ ρ k false [] (fun _ => True) (listDir path : Remote SftpFs σ _) :=
  withSftp_built fun f hf => .look (orKind_looks (question_built (c := .readdir f _) (hdir f _ hf) rfl))
    fun es _ => makeFsentries_built hX hf es

theorem stat_built (path : PathBuf) : Built (Piece X) υ ρ k false [] (fun _ => True) (stat path : Remote SftpFs σ _) :=
  withSftp_built fun f hf => .look (orKind_looks (question_built (c := .stat f _) (hX.stat f _ hf) rfl))
    fun _ _ => makeFsentry_built hX hf _ _

theorem existsPath_built (path : PathBuf) :
    Built (Piece X) υ ρ k false [] (fun _ => True) (existsPath path : Remote SftpFs σ _) := by
  refine .look (.attempt (stat_built hX path)) fun r _ => ?_
  cases r with
  | ok _ => exact .pure trivial
  | error err => exact .ite (fun _ => .pure trivial) fun _ => .throw nofun

theorem existsOrFalse_built (path : PathBuf) :
    Built (Piece X) υ ρ k b [] (fun _ => True) (existsOrFalse path : Remote SftpFs σ _) := by
  refine .look (.attempt (existsPath_built hX path)) fun r _ => ?_
  cases r with
  | ok b => exact .pure trivial
  | error _ => exact .pure trivial

end

variable (hX : X.Covers k.handles)
include hX

/-! ### Changes -/

theorem setstat_built (path : PathBuf) (metadata : Metadata) :
    Built (Piece X) υ Refused k false [.setstat (absolutize k.wrkdir path)
      (metadataToFilestat metadata)] (fun _ => True)
      (setstat path metadata : Remote SftpFs σ _) :=
  withSftp_built fun f hf => orKind_built (request_built (c := .setstat f _ _) (hX.calls _ hf)) rfl

theorem removeFile_built (path : PathBuf) :
    Built (Piece X) υ Refused k false [.unlink (absolutize k.wrkdir path)] (fun _ => True)
      (removeFile path : Remote SftpFs σ _) :=
  withSftp_built fun f hf => orKind_built (request_built (c := .unlink f _) (hX.calls _ hf)) rfl

theorem removeDir_built (path : PathBuf) :
    Built (Piece X) υ Refused k false [.rmdir (absolutize k.wrkdir path)] (fun _ => True)
      (removeDir path : Remote SftpFs σ _) :=
  withSftp_built fun f hf => orKind_built (request_built (c := .rmdir f _) (hX.calls _ hf)) rfl

theorem createDir_built (path : PathBuf) (mode : UnixPex) :
    Built (Piece X) (Paired k) Refused k false [.mkdir (absolutize k.wrkdir path) mode.toU32] (fun _ => True)
      (createDir path mode : Remote SftpFs σ _) := by
  refine .look (checkConnection_built hX.sees) fun _ hup => .self (.look (existsPath_built hX.sees _) fun _ _ => ?_)
  refine .ite (fun _ => .throw nofun) fun _ => unwrapSftp_built hup fun f hf => ?_
  exact orKind_built (request_built (c := .mkdir f _ _) (hX.calls _ hf)) rfl

theorem symlink_built (path target : PathBuf) :
    Built (Piece X) (Paired k) Refused k false [.symlink target (absolutize k.wrkdir path)] (fun _ => True)
      (symlink path target : Remote SftpFs σ _) := by
  refine .look (checkConnection_built hX.sees) fun _ hup => .self (.look (existsPath_built hX.sees _) fun _ _ => ?_)
  refine .ite (fun _ => unwrapSftp_built hup fun f hf => ?_) fun _ => .throw nofun
  exact orKind_built (request_built (c := .symlink f _ _) (hX.calls _ hf)) rfl

theorem copy_built (src dest : PathBuf) :
    Built (Piece X) (Paired k) Refused k false [ran (.copy (absolutize k.wrkdir src) (absolutize k.wrkdir dest))]
      (fun _ => True) (copy src dest : Remote SftpFs σ _) := by
  refine .look (checkConnection_built hX.sees) fun _ hup => .self (.look (existsOrFalse_built hX.sees _) fun _ _ => ?_)
  refine .ite (fun _ => .self (.self (.unwrap (fun _ => hup) fun s hs => ?_))) fun _ => .throw nofun
  refine .tried_look (judged_built (c := .copy _ _) (hX.session s hs) (hX.cmds _) rfl) ?_ fun e =>
    ⟨_, rfl, not_refused rfl⟩
  rintro ⟨rc, _⟩ _
  exact .ite (fun _ => .pure trivial) fun _ => .throw fun _ => not_refused rfl

theorem mov_built (src dest : PathBuf) :
    Built (Piece X) (Paired k) Refused k false [.renameOverwrite (absolutize k.wrkdir src) (absolutize k.wrkdir dest)]
      (fun _ => True) (mov src dest : Remote SftpFs σ _) := by
  refine .look (checkConnection_built hX.sees) fun _ hup => .self (.look (existsOrFalse_built hX.sees _) fun _ _ => ?_)
  refine .ite (fun _ => .self (unwrapSftp_built hup fun f hf => ?_)) fun _ => .throw nofun
  exact orKind_built (request_built (c := .renameOverwrite f _ _) (hX.calls _ hf)) rfl

omit hX in
theorem exec_built (hX : X.Tests k.handles) {cmd : Str} (hcmd : X.cmds (.execAt k.wrkdir cmd)) :
    Built (Piece X) υ ρ k false [ran (.execAt k.wrkdir cmd)] (fun _ => True) (exec cmd : Remote SftpFs σ _) :=
  .look (checkConnection_built hX.toSees) fun _ hup => .self (.unwrap (fun _ => hup) fun s hs => .self
    (judged_built (c := .execAt k.wrkdir cmd) (hX.session s hs) hcmd rfl))

theorem append_built (path : PathBuf) (metadata : Metadata) :
    Built (Piece X) υ Refused k false [.openMode (absolutize k.wrkdir path)
      [.create, .append, .write] (openMode metadata)]
      (fun _ => True) (append path metadata : Remote SftpFs σ _) :=
  withSftp_built fun f hf => orKind_built (request_built (c := .openMode f _ _ _) (hX.calls _ hf)) rfl

theorem create_built (path : PathBuf) (metadata : Metadata) :
    Built (Piece X) υ Refused k false [.openMode (absolutize k.wrkdir path)
      [.create, .write, .truncate] (openMode metadata)]
      (fun _ => True) (create path metadata : Remote SftpFs σ _) :=
  withSftp_built fun f hf => orKind_built (request_built (c := .openMode f _ _ _) (hX.calls _ hf)) rfl

theorem openRead_built (path : PathBuf) :
    Built (Piece X) (Paired k) ρ k false [] (fun _ => True) (openRead path : Remote SftpFs σ _) := by
  refine .look (checkConnection_built hX.sees) fun _ hup => .self (.look (existsOrFalse_built hX.sees _) fun _ _ => ?_)
  refine .ite (fun _ => unwrapSftp_built hup fun f hf => ?_) fun _ => .throw nofun
  exact orKind_looks (question_built (c := .openRead f _) (hX.calls _ hf) rfl)

/-! ### Transfers -/

omit hX in
theorem finish_built {m : Remote SftpFs σ (RemoteResult Unit)} (hm : Built (Piece X) υ ρ k b [] (fun _ => True) m)
    (hρ : b = true → ∀ e, ¬ ρ e) : Built (Piece X) υ ρ k b [] (fun _ => True) (finish m) := by
  refine .look hm fun r _ => ?_
  cases r with
  | ok _ => exact .pure trivial
  | error e => exact .throw fun hb => hρ hb e

variable {fuel : Nat} (hend : ∀ file, X.calls (.onWritten file) ∧ X.calls (.onRead file)) (hsteps : X.steps = some fuel)
include hend hsteps

/-- It is told at its end how it went, in any words. -/
theorem upload_built (w : PointerWidth) {opening : Remote SftpFs σ RemoteFile}
    (ho : Built (Piece X) υ Refused k false plan (fun _ => True) opening) (metadata : Metadata) :
    Built (Piece X) υ (fun _ => False) k false plan (fun _ => True) (upload w fuel opening metadata) := by
  refine .look (isConnected_built hX.sees) fun _ _ => .ite (fun _ => ?_) fun _ => .throw nofun
  refine .work_look (ho.mono (fun _ _ _ _ h => h) nofun) fun stream _ => ?_
  refine .look (.piece (.transfer hsteps)) fun _ _ => ?_
  exact .look (finish_built (question_built (c := .onWritten stream) (hend stream).1 rfl) fun _ _ =>
    id) fun _ _ => .pure trivial

theorem openFile_built (w : PointerWidth) (src : PathBuf) :
    Built (Piece X) (Paired k) ρ k false [] (fun _ => True) (openFile w fuel src : Remote SftpFs σ _) := by
  refine .look (isConnected_built hX.sees) fun _ _ => .ite (fun _ => ?_) fun _ => .throw nofun
  refine .look (stat_built hX.sees src) fun file _ => .look (openRead_built hX src) fun stream _ => ?_
  refine .look (.piece (.transfer hsteps)) fun _ _ => ?_
  exact .look (finish_built (question_built (c := .onRead stream) (hend stream).2 rfl) nofun) fun _ _ => .pure trivial

end

end SftpFs

/-! ## All operations -/

/-- It cannot be formatted, and is asked for. -/
def ScpFs.Unformatted (L : Libs) (metadata : Metadata) : Prop :=
  ∃ t, (metadata.accessed = some t ∨ metadata.modified = some t) ∧ L.chrono.formatUtc t "%Y%m%d%H%M.%S".toList = none

/-- A time that cannot be formatted stops only `setstat`. -/
def ScpFs.Stops (L : Libs) : ScpOp → Prop
  | .setstat _ metadata => Unformatted L metadata
  | _ => False

/-- The turns that a transfer is given; nothing else can take too long. -/
def SftpFs.steps? : SftpOp → Option Nat
  | .appendFile _ fuel _ _ | .createFile _ fuel _ _ | .openFile _ fuel _ => some fuel
  | _ => none

/-- The calls behind a transfer. -/
def Handles.Ends : SshCall → Prop
  | .onWritten _ | .onRead _ => True
  | _ => False

def ScpOp.scope (L : Libs) (op : ScpOp) (hs : Handles) : Scope := { hs.scope with late := ScpFs.Stops L op }

def SftpOp.scope (op : SftpOp) (hs : Handles) : Scope :=
  { hs.scope with
    calls := fun c => hs.Serve c ∨ Handles.Ends c ∧ (SftpFs.steps? op).isSome = true
    steps := SftpFs.steps? op }

def ScpOp.assigns : ScpOp → Bool
  | connect | disconnect | changeDir _ => true
  | _ => false

def SftpOp.assigns : SftpOp → Bool
  | connect | disconnect | changeDir _ => true
  | _ => false

section
variable {σ : Type}

theorem ScpOp.built (L : Libs) (op : ScpOp) (hop : op.assigns = false) (k : ScpFs) :
    Built (Piece (op.scope L k.handles)) True Refused k false (op.plan L k.wrkdir) (fun _ => True)
      (op.run L : Remote ScpFs σ _) := by
  have hX : (op.scope L k.handles).Covers k.handles := ⟨fun _ h => h, fun _ h => h, fun _ => trivial⟩
  cases op with
  | connect | disconnect | changeDir _ => cases hop
  | isConnected => exact (ScpFs.isConnected_built hX.sees).drop
  | pwd => exact (ScpFs.pwd_built hX).drop
  | listDir path => exact (ScpFs.listDir_built hX L path).drop
  | stat path => exact (ScpFs.stat_built hX L path).drop
  | setstat path metadata => exact ScpFs.setstat_built hX L path metadata fun t ht hfmt => ⟨t, ht, hfmt⟩
  | existsPath path => exact (ScpFs.existsPath_built hX.tests (hX.cmds _)).drop
  | removeFile path | removeDir path | removeDirAll path =>
    exact ScpFs.remove_built hX (fun _ => rfl) (fun _ => rfl) rfl path
  | createDir path mode => exact ScpFs.createDir_built hX path mode
  | symlink path target => exact ScpFs.symlink_built hX path target
  | copy src dest => exact ScpFs.copy_built hX src dest
  | mov src dest => exact ScpFs.mov_built hX src dest
  | exec cmd => exact (ScpFs.exec_built hX.tests (hX.cmds _)).drop
  | append path metadata => exact .look (S := fun _ => True) (.throw nofun) fun _ _ => .pure trivial
  | create path metadata => exact (ScpFs.create_built hX path metadata L).drop
  | openRead path => exact (ScpFs.openRead_built hX path).drop

theorem SftpOp.built (op : SftpOp) (hop : op.assigns = false) (k : SftpFs) :
    Built (Piece (op.scope k.handles)) (SftpFs.Paired k) op.Refused k false (op.plan k.wrkdir) (fun _ => True)
      (op.run : Remote SftpFs σ _) := by
  have hX : (op.scope k.handles).Covers k.handles := ⟨fun _ h => Or.inl h, fun _ h => h, fun _ => trivial⟩
  cases op with
  | connect | disconnect | changeDir _ => cases hop
  | isConnected => exact (SftpFs.isConnected_built hX.sees).drop
  | pwd => exact (SftpFs.pwd_built hX.sees).drop
  | listDir path => exact (SftpFs.listDir_built hX.sees (fun _ _ hf => hX.calls _ hf) path).drop
  | stat path => exact (SftpFs.stat_built hX.sees path).drop
  | setstat path metadata => exact SftpFs.setstat_built hX path metadata
  | existsPath path => exact (SftpFs.existsPath_built hX.sees path).drop
  | removeFile path => exact SftpFs.removeFile_built hX path
  | removeDir path => exact SftpFs.removeDir_built hX path
  | createDir path mode => exact SftpFs.createDir_built hX path mode
  | symlink path target => exact SftpFs.symlink_built hX path target
  | copy src dest => exact SftpFs.copy_built hX src dest
  | mov src dest => exact SftpFs.mov_built hX src dest
  | exec cmd => exact (SftpFs.exec_built hX.tests (hX.cmds _)).drop
  | append path metadata => exact (SftpFs.append_built hX path metadata).drop
  | create path metadata => exact (SftpFs.create_built hX path metadata).drop
  | openRead path => exact (SftpFs.openRead_built hX path).drop
  | appendFile w fuel path metadata =>
    exact (SftpFs.upload_built hX (fun _ => ⟨Or.inr ⟨trivial, rfl⟩, Or.inr ⟨trivial, rfl⟩⟩) rfl w
      (SftpFs.append_built hX path metadata) metadata).drop
  | createFile w fuel path metadata =>
    exact (SftpFs.upload_built hX (fun _ => ⟨Or.inr ⟨trivial, rfl⟩, Or.inr ⟨trivial, rfl⟩⟩) rfl w
      (SftpFs.create_built hX path metadata) metadata).drop
  | openFile w fuel src =>
    exact (SftpFs.openFile_built hX (fun _ => ⟨Or.inr ⟨trivial, rfl⟩, Or.inr ⟨trivial, rfl⟩⟩) rfl w src).drop

end

end RemotefsSsh
