import RemotefsSsh.Calls
import RemotefsSsh.Commands

/-!
# Connecting, authenticating, running shell commands (ssh/commons.rs)

Everything here works on a session handle and does not touch the client record, so it is stated for
any record type `κ`. Logging (`trace!`, `debug!`, ...) is left out.

`perform_shell_cmd_with_rc` is split in two: running the command, and `rcOfOutput`, what is done
with the text that came back.
-/

namespace RemotefsSsh

open Utf8 UnixPath Effect Prog

variable {κ σ : Type}

/-! ## Configuration -/

/-- `Config::parse` (config.rs:45). -/
def Config.parse (p : PathBuf) (host : Str) (rules : ParseRule) : Remote κ σ HostParams := do
  match ← ask (.configOpen p) with
  | .error e => throw (.newEx .ioError ("Could not open configuration file: ".toList ++ e))
  | .ok () =>
    match ← ask (.configParse p rules host) with
    | .error e => throw (.newEx .ioError ("Could not parse configuration file: ".toList ++ e))
    | .ok params => pure params

/-- `Config::try_from` (config.rs:117). -/
def Config.tryFrom (opts : SshOpts) : Remote κ σ Config := do
  match opts.configFile with
  | some p =>
    let params ← Config.parse p opts.host opts.parseRules
    pure (Config.fromParams params opts)
  | none => pure (Config.fromParams .default opts)

/-! ## `connect` (commons.rs:22) -/

/-- `tcp_connect`: no timeout when it is zero. -/
def tcpConnect (address : SocketAddr) (timeout : Duration) : Remote κ σ (Except IoError TcpStream) :=
  if timeout.isZero then ask (.tcpConnect address) else ask (.tcpConnectTimeout address timeout)

/-- The inner loop: the first address that answers. -/
def tryAddresses (timeout : Duration) : List SocketAddr → Remote κ σ (Option TcpStream)
  | [] => pure none
  | a :: as => do
    match ← tcpConnect a timeout with
    | .ok stream => pure (some stream)
    | .error _ => tryAddresses timeout as

/-- The outer loop over `connection_attempts`. -/
def tryAttempts (timeout : Duration) (addrs : List SocketAddr) : Nat → Remote κ σ (Option TcpStream)
  | 0 => pure none
  | n + 1 => do
    match ← tryAddresses timeout addrs with
    | some stream => pure (some stream)
    | none => tryAttempts timeout addrs n

/-- `session.method_pref(..)`, its failure as a protocol error. -/
def methodPref (session : SshSession) (t : SshMethodType) (algos : Str) : Remote κ σ Unit := do
  match ← ask (.methodPref session t algos) with
  | .error err => throw (.newEx .protocolError err.display)
  | .ok () => pure ()

def setMethods (session : SshSession) : List KeyMethod → Remote κ σ Unit
  | [] => pure ()
  | m :: ms => do
    methodPref session m.methodType.toSsh m.prefs
    setMethods session ms

/-- A configuration list that is set once for each of `ts`. -/
def setParam (session : SshSession) (ts : List SshMethodType) : Option (List Str) → Remote κ σ Unit
  | none => pure ()
  | some algos => ts.forM fun t => methodPref session t (joinComma algos)

/-- `set_algo_prefs` (commons.rs:139): the configuration's lists first, then the options' methods. -/
def setAlgoPrefs (session : SshSession) (opts : SshOpts) (config : Config) : Remote κ σ Unit := do
  let params := config.params
  ifSome params.compression fun compress => ask (.setCompress session compress)
  setParam session [.kex] params.kexAlgorithms
  setParam session [.hostKey] params.hostKeyAlgorithms
  setParam session [.cryptCs, .cryptSc] params.ciphers
  setParam session [.macCs, .macSc] params.mac
  setMethods session opts.methods

/-- An `ssh2` call of the agent, its failure as a connection error. -/
def agentCall {α : Type} (m : Remote κ σ (Except SshError α)) : Remote κ σ α := do
  match ← m with
  | .error err => throw (.newEx .connectionError err.display)
  | .ok a => pure a

/-- The loop over the agent's identities; the result is `connection_result`. -/
def tryIdentities (session : SshSession) (agent : Agent) (username : Str) (cfg : SshAgentIdentity) :
    List PublicKey → RemoteResult Unit → Remote κ σ (RemoteResult Unit)
  | [], result => pure result
  | identity :: ids, result => do
    if cfg.pubkeyMatches identity.blob then
      match ← ask (.agentUserauth session agent username identity) with
      | .ok () => pure (.ok ())
      | .error err => tryIdentities session agent username cfg ids (.error (.newEx .authenticationFailed err.display))
    else tryIdentities session agent username cfg ids result

/-- `session_auth_with_agent` (commons.rs:200). -/
def sessionAuthWithAgent (session : SshSession) (username : Str) (cfg : SshAgentIdentity) : Remote κ σ Unit := do
  let agent ← agentCall (ask (.agent session))
  agentCall (ask (.agentConnect agent))
  agentCall (ask (.agentListIdentities agent))
  let identities ← agentCall (ask (.agentIdentities agent))
  let result ← tryIdentities session agent username cfg identities (.error (.new .authenticationFailed))
  let _ ← ask (.agentDisconnect agent)
  match result with
  | .ok () => pure ()
  | .error e => throw e

/-- The loop over the private keys. -/
def tryKeys (session : SshSession) (username : Str) (password : Option Str) : List PathBuf → Remote κ σ Unit
  | [] => throw (.newEx .authenticationFailed "could not find any suitable RSA key to authenticate with".toList)
  | key :: keys => do
    match ← ask (.userauthPubkeyFile session username key password) with
    | .ok () => pure ()
    | .error _ => tryKeys session username password keys

/-- `session_auth_with_rsakey` (commons.rs:252). -/
def sessionAuthWithRsakey (session : SshSession) (username : Str) (privateKey : PathBuf) (password : Option Str)
    (identityFile : Option (List PathBuf)) : Remote κ σ Unit :=
  tryKeys session username password (privateKey :: identityFile.getD [])

/-- `session_auth_with_password` (commons.rs:285). -/
def sessionAuthWithPassword (session : SshSession) (username : Str) (password : Option Str) : Remote κ σ Unit := do
  match ← ask (.userauthPassword session username (password.getD [])) with
  | .error err => throw (.newEx .authenticationFailed err.display)
  | .ok () => pure ()

/-- The key the storage has for the host, or else for the resolved host. -/
def resolveKey (opts : SshOpts) (config : Config) : Option PathBuf :=
  opts.keyStorage.bind fun resolve =>
    (resolve config.host config.username).or (resolve config.resolvedHost config.username)

/-- Password or key (commons.rs:98-123). -/
def sessionAuth (session : SshSession) (opts : SshOpts) (config : Config) : Remote κ σ Unit := do
  if ← ask (.authenticated session) then pure ()
  else
    match resolveKey opts config with
    | some rsaKey =>
      sessionAuthWithRsakey session config.username rsaKey opts.password config.params.identityFile
    | none => sessionAuthWithPassword session config.username opts.password

/-- The authentication phase of `connect` (commons.rs:84-123). -/
def authenticate (session : SshSession) (opts : SshOpts) (config : Config) : Remote κ σ Unit := do
  match opts.sshAgentIdentity with
  | some cfg =>
    match ← attempt (sessionAuthWithAgent session config.username cfg) with
    | .ok () => pure ()
    | .error _ => sessionAuth session opts config
  | none => sessionAuth session opts config

def connect (opts : SshOpts) : Remote κ σ SshSession := do
  let config ← Config.tryFrom opts
  match ← ask (.toSocketAddrs config.address) with
  | .error err => throw (.newEx .badAddress err)
  | .ok socketAddresses =>
    match ← tryAttempts config.connectionTimeout socketAddresses config.connectionAttempts with
    | none => throw (.newEx .connectionError "connection timeout".toList)
    | some stream =>
      match ← ask .sessionNew with
      | .error err => throw (.newEx .connectionError err.display)
      | .ok session =>
        ask (.setTcpStream session stream)
        setAlgoPrefs session opts config
        match ← ask (.handshake session) with
        | .error err => throw (.newEx .protocolError err.display)
        | .ok () =>
          authenticate session opts config
          pure session

/-! ## Shell commands -/

/-- `perform_shell_cmd` (commons.rs:307). -/
def performShellCmd (session : SshSession) (cmd : Str) : Remote κ σ Str := do
  match ← ask (.channelSession session) with
  | .error err => throw (.newEx .protocolError ("Could not open channel: ".toList ++ err.display))
  | .ok channel =>
    match ← ask (.channelExec channel cmd) with
    | .error err =>
      throw (.newEx .protocolError ("Could not execute command \"".toList ++ cmd ++ "\": ".toList ++ err.display))
    | .ok () =>
      match ← ask (.channelReadToString channel) with
      | .error err => throw (.newEx .protocolError ("Could not read output: ".toList ++ err))
      | .ok output =>
        let _ ← ask (.channelWaitClose channel)
        pure output

def rcError : RemoteError := .newEx .protocolError "Failed to get command exit code".toList

/-- `perform_shell_cmd_with_rc` after the command ran (commons.rs:356-380). The offset of the last
newline is taken in the trimmed text and used in the text itself. -/
def rcOfOutput (output : Str) : Out RemoteError (UInt32 × Str) :=
  match rfind (trim output) '\n' with
  | some index => do
    let actualOutput ← Out.unwrapSlice (sliceTo output (index + 1))
    let rcText ← Out.unwrapSlice (sliceFrom output index)
    match parseU32 (trim rcText) with
    | some val => .ok (val, actualOutput)
    | none => .err rcError
  | none =>
    match parseU32 (trim output) with
    | some val => .ok (val, [])
    | none => .err rcError

/-- `perform_shell_cmd_with_rc` (commons.rs:351). -/
def performShellCmdWithRc (session : SshSession) (cmd : Str) : Remote κ σ (UInt32 × Str) := do
  let output ← performShellCmd session (cmd ++ ShellCmd.rcTail)
  ofOut (rcOfOutput output)

/-- `perform_shell_cmd_at_with_rc` (commons.rs:342). -/
def performShellCmdAtWithRc (session : SshSession) (cmd : Str) (p : PathBuf) : Remote κ σ (UInt32 × Str) :=
  performShellCmdWithRc session (ShellCmd.execAt p cmd).text

end RemotefsSsh
