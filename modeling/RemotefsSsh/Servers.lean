import RemotefsSsh.Commons

/-!
# Servers to run the clients against

`okReply` answers every call with success. `shellServer` also runs shell commands: its state is the
last command line it was given, and a read returns what `answer` says that line prints. Both satisfy
the hypotheses that the results about runs are stated under.
-/

namespace RemotefsSsh

open Utf8 UnixPath Effect Prog

/-- Success, with the smallest answer there is. -/
def okReply : (c : SshCall) → c.Reply
  | .configOpen _ => .ok ()
  | .configParse .. => .ok .default
  | .toSocketAddrs _ => .ok [⟨0⟩]
  | .tcpConnect _ => .ok ⟨0⟩
  | .tcpConnectTimeout .. => .ok ⟨0⟩
  | .sessionNew => .ok ⟨0⟩
  | .setTcpStream .. => ()
  | .setCompress .. => ()
  | .methodPref .. => .ok ()
  | .handshake _ => .ok ()
  | .banner _ => none
  | .setBlocking .. => ()
  | .authenticated _ => true
  | .disconnect .. => .ok ()
  | .agent _ => .ok ⟨0⟩
  | .agentConnect _ => .ok ()
  | .agentListIdentities _ => .ok ()
  | .agentIdentities _ => .ok []
  | .agentUserauth .. => .ok ()
  | .agentDisconnect _ => .ok ()
  | .userauthPubkeyFile .. => .ok ()
  | .userauthPassword .. => .ok ()
  | .channelSession _ => .ok ⟨0⟩
  | .channelExec .. => .ok ()
  | .channelReadToString _ => .ok []
  | .channelWaitClose _ => .ok ()
  | .sftp _ => .ok ⟨0⟩
  | .realpath .. => .ok ['/']
  | .readdir .. => .ok []
  | .stat .. => .ok ⟨none, none, none, none, none, none⟩
  | .setstat .. => .ok ()
  | .readlink .. => .ok ['/']
  | .unlink .. => .ok ()
  | .rmdir .. => .ok ()
  | .mkdir .. => .ok ()
  | .symlink .. => .ok ()
  | .renameOverwrite .. => .ok ()
  | .openMode .. => .ok ⟨0⟩
  | .openRead .. => .ok ⟨0⟩
  | .fileRead .. => .ok ⟨[], Nat.zero_le _⟩
  | .fileWrite _ buf => .ok (Fin.last buf.length)
  | .onWritten _ => .ok ()
  | .onRead _ => .ok ()
  | .scpSend .. => .ok ⟨0⟩
  | .scpRecv .. => .ok ⟨0⟩
  | .readerRead _ => .ok ⟨[], Nat.zero_le _⟩
  | .writerWrite buf => .ok (Fin.last buf.length)
  | .utcYear => 2024

/-- A server that prints `answer line` for the command line `line`. -/
def shellServer (answer : Str → Str) : Handler Ssh Str where
  reply
    | .channelExec _ cmd, _ => (.ok (), cmd)
    | .channelReadToString _, last => (.ok (answer last), last)
    | c, last => (okReply c, last)

variable {κ : Type} {answer : Str → Str}

theorem shellServer_output {session : SshSession} {cmd out : Str} {st st' : St Ssh κ Str}
    (h : performShellCmd session cmd (shellServer answer) st = (.ok out, st')) : out = answer cmd := by
  cases h
  rfl

end RemotefsSsh
