import RemotefsSsh.Fs

/-!
# Options and configuration (ssh/mod.rs, ssh/config.rs)

`HostParams` is what `ssh2_config` returns for a host, reduced to the fields this crate reads. The
key storage is the trait object's `resolve`. Reading and parsing the configuration file is the
environment's part (`Calls.lean`); `Config.fromParams` is what happens to the result.
-/

namespace RemotefsSsh

open Utf8 UnixPath

structure Duration where
  secs : UInt64
  nanos : UInt32
deriving DecidableEq, Repr

def Duration.ofSecs (n : UInt64) : Duration := ⟨n, 0⟩

def Duration.isZero (d : Duration) : Bool := d.secs == 0 && d.nanos == 0

/-- `MethodType` (mod.rs:231). -/
inductive MethodType where
  | cryptClientServer
  | cryptServerClient
  | hostKey
  | kex
  | macClientServer
  | macServerClient
deriving DecidableEq, Repr

/-- `ssh2::MethodType`, the ones this crate sets. -/
inductive SshMethodType where
  | cryptCs
  | cryptSc
  | hostKey
  | kex
  | macCs
  | macSc
deriving DecidableEq, Repr

/-- `From<MethodType> for SshMethodType` (mod.rs:240). -/
def MethodType.toSsh : MethodType → SshMethodType
  | cryptClientServer => .cryptCs
  | cryptServerClient => .cryptSc
  | hostKey => .hostKey
  | kex => .kex
  | macClientServer => .macCs
  | macServerClient => .macSc

/-- `[String]::join(",")` -/
def joinComma (algos : List Str) : Str := List.intercalate [','] algos

structure KeyMethod where
  methodType : MethodType
  algos : List Str
deriving DecidableEq, Repr

def KeyMethod.prefs (m : KeyMethod) : Str := joinComma m.algos

inductive SshAgentIdentity where
  | all
  | pubkey (v : List UInt8)
deriving DecidableEq, Repr

def SshAgentIdentity.pubkeyMatches : SshAgentIdentity → List UInt8 → Bool
  | all, _ => true
  | pubkey v, blob => v == blob

/-- `ssh2_config::ParseRule`, a set of flags. -/
structure ParseRule where
  bits : UInt8
deriving DecidableEq, Repr

structure SshOpts where
  host : Str
  port : Option UInt16
  username : Option Str
  password : Option Str
  connectionTimeout : Option Duration
  configFile : Option PathBuf
  keyStorage : Option (Str → Str → Option PathBuf)
  methods : List KeyMethod
  parseRules : ParseRule
  sshAgentIdentity : Option SshAgentIdentity

/-- `ParseRule::STRICT`: no flag set. -/
def ParseRule.strict : ParseRule := ⟨0⟩

/-- `SshOpts::new` (mod.rs:130) -/
def SshOpts.new (host : Str) : SshOpts :=
  ⟨host, none, none, none, none, none, none, [], .strict, none⟩

structure HostParams where
  hostName : Option Str
  port : Option UInt16
  user : Option Str
  connectTimeout : Option Duration
  connectionAttempts : Option Nat
  compression : Option Bool
  kexAlgorithms : Option (List Str)
  hostKeyAlgorithms : Option (List Str)
  ciphers : Option (List Str)
  mac : Option (List Str)
  identityFile : Option (List PathBuf)
deriving DecidableEq, Repr

def HostParams.default : HostParams :=
  ⟨none, none, none, none, none, none, none, none, none, none, none⟩

/-! ## `Config` (config.rs:16) -/

structure Config where
  params : HostParams
  host : Str
  resolvedHost : Str
  address : Str
  username : Str
  connectionTimeout : Duration
  connectionAttempts : Nat

namespace Config

def resolveHost (params : HostParams) (opts : SshOpts) : Str := params.hostName.getD opts.host

/-- The port of the options has priority. -/
def resolveAddress (params : HostParams) (opts : SshOpts) : Str :=
  resolveHost params opts ++ ':' :: decimal (opts.port.getD (params.port.getD 22)).toNat

def resolveUsername (params : HostParams) (opts : SshOpts) : Str := opts.username.getD (params.user.getD [])

def resolveConnectionTimeout (params : HostParams) (opts : SshOpts) : Duration :=
  opts.connectionTimeout.getD (params.connectTimeout.getD (.ofSecs 30))

def resolveConnectionAttempts (params : HostParams) : Nat := params.connectionAttempts.getD 1

def fromParams (params : HostParams) (opts : SshOpts) : Config where
  host := opts.host
  resolvedHost := resolveHost params opts
  address := resolveAddress params opts
  username := resolveUsername params opts
  connectionTimeout := resolveConnectionTimeout params opts
  connectionAttempts := resolveConnectionAttempts params
  params := params

end Config

end RemotefsSsh
