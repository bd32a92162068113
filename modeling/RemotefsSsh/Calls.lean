import RemotefsSsh.Opts
import RemotefsSsh.Lib.Effect

/-!
# What the clients ask of their environment

One constructor for each call into `ssh2`, `ssh2_config`, the TCP stack, the caller's own streams
and the clock, with the arguments the clients pass and the type of the answer. Nothing is assumed
about the answers here beyond their types: a read returns at most as many bytes as asked for, a
write takes at most the buffer.

Sessions, channels and the rest are handles; two handles are the same object when they are equal.
-/

namespace RemotefsSsh

open Utf8 UnixPath Effect

structure SshSession where
  id : Nat
deriving DecidableEq, Repr

structure SshSftp where
  id : Nat
deriving DecidableEq, Repr

structure Channel where
  id : Nat
deriving DecidableEq, Repr

structure Agent where
  id : Nat
deriving DecidableEq, Repr

structure RemoteFile where
  id : Nat
deriving DecidableEq, Repr

structure SocketAddr where
  id : Nat
deriving DecidableEq, Repr

structure TcpStream where
  id : Nat
deriving DecidableEq, Repr

/-- An identity held by the ssh agent. -/
structure PublicKey where
  blob : List UInt8
deriving DecidableEq, Repr

/-- `ssh2::ErrorCode` -/
inductive ErrorCode where
  | session (code : Int)
  | sftp (code : Int)
deriving DecidableEq, Repr

/-- `ssh2::Error`: its code and its `Display` text. -/
structure SshError where
  code : ErrorCode
  display : Str
deriving DecidableEq, Repr

/-- `std::io::Error`, as its `Display` text. -/
abbrev IoError := Str

inductive OpenFlag where
  | create
  | append
  | write
  | truncate
deriving DecidableEq, Repr

inductive SshCall where
  -- configuration, addresses and sockets
  | configOpen (p : PathBuf)
  | configParse (p : PathBuf) (rules : ParseRule) (host : Str)
  | toSocketAddrs (address : Str)
  | tcpConnect (address : SocketAddr)
  | tcpConnectTimeout (address : SocketAddr) (timeout : Duration)
  -- the session
  | sessionNew
  | setTcpStream (s : SshSession) (stream : TcpStream)
  | setCompress (s : SshSession) (compress : Bool)
  | methodPref (s : SshSession) (methodType : SshMethodType) (prefs : Str)
  | handshake (s : SshSession)
  | banner (s : SshSession)
  | setBlocking (s : SshSession) (blocking : Bool)
  | authenticated (s : SshSession)
  | disconnect (s : SshSession) (description : Str)
  -- authentication
  | agent (s : SshSession)
  | agentConnect (a : Agent)
  | agentListIdentities (a : Agent)
  | agentIdentities (a : Agent)
  | agentUserauth (s : SshSession) (a : Agent) (username : Str) (identity : PublicKey)
  | agentDisconnect (a : Agent)
  | userauthPubkeyFile (s : SshSession) (username : Str) (privateKey : PathBuf) (passphrase : Option Str)
  | userauthPassword (s : SshSession) (username password : Str)
  -- shell channels
  | channelSession (s : SshSession)
  | channelExec (ch : Channel) (cmd : Str)
  | channelReadToString (ch : Channel)
  | channelWaitClose (ch : Channel)
  -- SFTP
  | sftp (s : SshSession)
  | realpath (f : SshSftp) (p : PathBuf)
  | readdir (f : SshSftp) (p : PathBuf)
  | stat (f : SshSftp) (p : PathBuf)
  | setstat (f : SshSftp) (p : PathBuf) (stat : FileStat)
  | readlink (f : SshSftp) (p : PathBuf)
  | unlink (f : SshSftp) (p : PathBuf)
  | rmdir (f : SshSftp) (p : PathBuf)
  | mkdir (f : SshSftp) (p : PathBuf) (mode : UInt32)
  | symlink (f : SshSftp) (p target : PathBuf)
  | renameOverwrite (f : SshSftp) (src dst : PathBuf)
  | openMode (f : SshSftp) (p : PathBuf) (flags : List OpenFlag) (mode : UInt32)
  | openRead (f : SshSftp) (p : PathBuf)
  | fileRead (file : RemoteFile) (cap : Nat)
  | fileWrite (file : RemoteFile) (buf : List UInt8)
  | onWritten (file : RemoteFile)
  | onRead (file : RemoteFile)
  -- SCP
  | scpSend (s : SshSession) (p : PathBuf) (mode : UInt32) (size : UInt64) (times : UInt64 × UInt64)
  | scpRecv (s : SshSession) (p : PathBuf)
  -- the reader and the writer that the caller hands over, and the clock
  | readerRead (cap : Nat)
  | writerWrite (buf : List UInt8)
  | utcYear

@[reducible] def SshCall.Reply : SshCall → Type
  | configOpen _ => Except IoError Unit
  | configParse .. => Except Str HostParams
  | toSocketAddrs _ => Except IoError (List SocketAddr)
  | tcpConnect _ => Except IoError TcpStream
  | tcpConnectTimeout .. => Except IoError TcpStream
  | sessionNew => Except SshError SshSession
  | setTcpStream .. => Unit
  | setCompress .. => Unit
  | methodPref .. => Except SshError Unit
  | handshake _ => Except SshError Unit
  | banner _ => Option Str
  | setBlocking .. => Unit
  | authenticated _ => Bool
  | disconnect .. => Except SshError Unit
  | agent _ => Except SshError Agent
  | agentConnect _ => Except SshError Unit
  | agentListIdentities _ => Except SshError Unit
  | agentIdentities _ => Except SshError (List PublicKey)
  | agentUserauth .. => Except SshError Unit
  | agentDisconnect _ => Except SshError Unit
  | userauthPubkeyFile .. => Except SshError Unit
  | userauthPassword .. => Except SshError Unit
  | channelSession _ => Except SshError Channel
  | channelExec .. => Except SshError Unit
  | channelReadToString _ => Except IoError Str
  | channelWaitClose _ => Except SshError Unit
  | sftp _ => Except SshError SshSftp
  | realpath .. => Except SshError PathBuf
  | readdir .. => Except SshError (List (PathBuf × FileStat))
  | stat .. => Except SshError FileStat
  | setstat .. => Except SshError Unit
  | readlink .. => Except SshError PathBuf
  | unlink .. => Except SshError Unit
  | rmdir .. => Except SshError Unit
  | mkdir .. => Except SshError Unit
  | symlink .. => Except SshError Unit
  | renameOverwrite .. => Except SshError Unit
  | openMode .. => Except SshError RemoteFile
  | openRead .. => Except SshError RemoteFile
  | fileRead _ cap => Except IoError { bs : List UInt8 // bs.length ≤ cap }
  | fileWrite _ buf => Except IoError (Fin (buf.length + 1))
  | onWritten _ => RemoteResult Unit
  | onRead _ => RemoteResult Unit
  | scpSend .. => Except SshError Channel
  | scpRecv .. => Except SshError Channel
  | readerRead cap => Except IoError { bs : List UInt8 // bs.length ≤ cap }
  | writerWrite buf => Except IoError (Fin (buf.length + 1))
  | utcYear => Int

@[reducible] def Ssh : Iface := ⟨SshCall, SshCall.Reply⟩

/-- A client operation on a client record `κ` in an environment with state `σ`. -/
abbrev Remote (κ σ α : Type) := Prog Ssh κ σ RemoteError α

/-- One call. -/
def ask {κ σ : Type} (c : SshCall) : Remote κ σ c.Reply := Prog.call (F := Ssh) c

theorem ask_run {κ σ : Type} {H : Handler Ssh σ} (c : SshCall) (st : St Ssh κ σ) :
    (ask c : Remote κ σ _) H st =
      (.ok (H.reply c st.env).1, ⟨st.self, (H.reply c st.env).2, st.log ++ [⟨c, (H.reply c st.env).1⟩]⟩) := rfl

/-- The answer, the environment after it, the entry in the log, and the record as it was. -/
theorem ask_ok {κ σ : Type} {H : Handler Ssh σ} {c : SshCall} {r : c.Reply} {st st' : St Ssh κ σ}
    (h : (ask c : Remote κ σ _) H st = (.ok r, st')) :
    (H.reply c st.env).1 = r ∧ st'.env = (H.reply c st.env).2 ∧ st'.log = st.log ++ [⟨c, r⟩] ∧ st'.self = st.self := by
  cases h
  exact ⟨rfl, rfl, rfl, rfl⟩

end RemotefsSsh
