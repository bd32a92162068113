import RemotefsSsh.Scp
import RemotefsSsh.Sftp

/-!
# The operations of the clients, and what each is to do (ssh/scp.rs, ssh/sftp.rs)

Besides looking (tests, listings, `pwd` and the `cd` of `change_dir`, STAT, READLINK and READDIR requests) an
operation runs a line or sends a request only if it is on its plan, which its arguments and the working directory fix.
That the bodies of the operations keep to it is in `Bodies.lean`.
-/

namespace RemotefsSsh

open Utf8 UnixPath Effect Prog

inductive SftpOp where
  | connect
  | disconnect
  | isConnected
  | pwd
  | changeDir (dir : PathBuf)
  | listDir (path : PathBuf)
  | stat (path : PathBuf)
  | setstat (path : PathBuf) (metadata : Metadata)
  | existsPath (path : PathBuf)
  | removeFile (path : PathBuf)
  | removeDir (path : PathBuf)
  | createDir (path : PathBuf) (mode : UnixPex)
  | symlink (path target : PathBuf)
  | copy (src dest : PathBuf)
  | mov (src dest : PathBuf)
  | exec (cmd : Str)
  | append (path : PathBuf) (metadata : Metadata)
  | create (path : PathBuf) (metadata : Metadata)
  | openRead (path : PathBuf)
  | appendFile (w : PointerWidth) (fuel : Nat) (path : PathBuf) (metadata : Metadata)
  | createFile (w : PointerWidth) (fuel : Nat) (path : PathBuf) (metadata : Metadata)
  | openFile (w : PointerWidth) (fuel : Nat) (src : PathBuf)

inductive ScpOp where
  | connect
  | disconnect
  | isConnected
  | pwd
  | changeDir (dir : PathBuf)
  | listDir (path : PathBuf)
  | stat (path : PathBuf)
  | setstat (path : PathBuf) (metadata : Metadata)
  | existsPath (path : PathBuf)
  | removeFile (path : PathBuf)
  | removeDir (path : PathBuf)
  | removeDirAll (path : PathBuf)
  | createDir (path : PathBuf) (mode : UnixPex)
  | symlink (path target : PathBuf)
  | copy (src dest : PathBuf)
  | mov (src dest : PathBuf)
  | exec (cmd : Str)
  | append (path : PathBuf) (metadata : Metadata)
  | create (path : PathBuf) (metadata : Metadata)
  | openRead (path : PathBuf)

section
variable {σ : Type}

/-- The operation, without its value. -/
def SftpOp.run : SftpOp → Remote SftpFs σ Unit
  | connect => do let _ ← SftpFs.connect
  | disconnect => SftpFs.disconnect
  | isConnected => do let _ ← SftpFs.isConnected
  | pwd => do let _ ← SftpFs.pwd
  | changeDir dir => do let _ ← SftpFs.changeDir dir
  | listDir path => do let _ ← SftpFs.listDir path
  | stat path => do let _ ← SftpFs.stat path
  | setstat path metadata => SftpFs.setstat path metadata
  | existsPath path => do let _ ← SftpFs.existsPath path
  | removeFile path => SftpFs.removeFile path
  | removeDir path => SftpFs.removeDir path
  | createDir path mode => SftpFs.createDir path mode
  | symlink path target => SftpFs.symlink path target
  | copy src dest => SftpFs.copy src dest
  | mov src dest => SftpFs.mov src dest
  | exec cmd => do let _ ← SftpFs.exec cmd
  | append path metadata => do let _ ← SftpFs.append path metadata
  | create path metadata => do let _ ← SftpFs.create path metadata
  | openRead path => do let _ ← SftpFs.openRead path
  | appendFile w fuel path metadata => do let _ ← SftpFs.appendFile w fuel path metadata
  | createFile w fuel path metadata => do let _ ← SftpFs.createFile w fuel path metadata
  | openFile w fuel src => do let _ ← SftpFs.openFile w fuel src

/-- The operation, without its value. -/
def ScpOp.run (L : Libs) : ScpOp → Remote ScpFs σ Unit
  | connect => do let _ ← ScpFs.connect
  | disconnect => ScpFs.disconnect
  | isConnected => do let _ ← ScpFs.isConnected
  | pwd => do let _ ← ScpFs.pwd
  | changeDir dir => do let _ ← ScpFs.changeDir dir
  | listDir path => do let _ ← ScpFs.listDir L path
  | stat path => do let _ ← ScpFs.stat L path
  | setstat path metadata => ScpFs.setstat L path metadata
  | existsPath path => do let _ ← ScpFs.existsPath path
  | removeFile path => ScpFs.removeFile path
  | removeDir path => ScpFs.removeDir path
  | removeDirAll path => ScpFs.removeDirAll path
  | createDir path mode => ScpFs.createDir path mode
  | symlink path target => ScpFs.symlink path target
  | copy src dest => ScpFs.copy src dest
  | mov src dest => ScpFs.mov src dest
  | exec cmd => do let _ ← ScpFs.exec cmd
  | append path metadata => do let _ ← ScpFs.append path metadata
  | create path metadata => do let _ ← ScpFs.create path metadata
  | openRead path => do let _ ← ScpFs.openRead path

end

/-! ## Looking and working -/

/-- The commands that only look. -/
def ShellCmd.looks : ShellCmd → Bool
  | pwd | changeDir _ | listDir _ | statDir _ | statFile _ | isDirectory _ | existsPath _ => true
  | _ => false

def looks (line : Str) : Bool :=
  line == "pwd".toList || "test ".toList.isPrefixOf line || "ls ".toList.isPrefixOf line ||
    "unset LANG; ls ".toList.isPrefixOf line ||
    ("cd ".toList.isPrefixOf line && "; echo $?; pwd".toList.isSuffixOf line)

/-- A line to run, or a request that names a path to change. What is written goes to the file that was opened. -/
inductive Work where
  | line (line : Str)
  | setstat (p : PathBuf) (stat : FileStat)
  | unlink (p : PathBuf)
  | rmdir (p : PathBuf)
  | mkdir (p : PathBuf) (mode : UInt32)
  | symlink (p target : PathBuf)
  | renameOverwrite (src dst : PathBuf)
  | openMode (p : PathBuf) (flags : List OpenFlag) (mode : UInt32)
  | scpSend (p : PathBuf) (mode : UInt32) (size : UInt64) (times : UInt64 × UInt64)
deriving DecidableEq

def work? : SshCall → Option Work
  | .channelExec _ line => if looks line then none else some (.line line)
  | .setstat _ p stat => some (.setstat p stat)
  | .unlink _ p => some (.unlink p)
  | .rmdir _ p => some (.rmdir p)
  | .mkdir _ p mode => some (.mkdir p mode)
  | .symlink _ p target => some (.symlink p target)
  | .renameOverwrite _ src dst => some (.renameOverwrite src dst)
  | .openMode _ p flags mode => some (.openMode p flags mode)
  | .scpSend _ p mode size times => some (.scpSend p mode size times)
  | _ => none

def ran (c : ShellCmd) : Work := .line c.line

theorem looks_line (c : ShellCmd) : looks c.line = c.looks := by
  cases c with
  | changeDir dir =>
    have hsuffix : "; echo $?; pwd".toList.isSuffixOf (ShellCmd.changeDir dir).line = true :=
      List.isSuffixOf_iff_suffix.2 ⟨"cd ".toList ++ quoted dir, (List.append_nil _).symm⟩
    simp only [looks, hsuffix]
    rfl
  | execAt p cmd =>
    have hsuffix : "; echo $?; pwd".toList.isSuffixOf (ShellCmd.execAt p cmd).line = false := by
      rw [Bool.eq_false_iff]
      intro h
      -- the line ends in the tail of its exit code
      have htail : ShellCmd.rcTail <:+ (ShellCmd.execAt p cmd).line := List.suffix_append _ _
      have hboth := List.suffix_of_suffix_length_le htail (List.isSuffixOf_iff_suffix.1 h) (by decide)
      exact absurd hboth (by decide)
    simp only [looks, hsuffix]
    rfl
  | _ => rfl

/-! ## Plans -/

/-- What `setstat` runs for a time; one that cannot be formatted stops it. -/
def touchPlan (L : Libs) (t : Option SystemTime) (cmd : Str → ShellCmd) : List Work :=
  ((t.bind fun t => L.chrono.formatUtc t "%Y%m%d%H%M.%S".toList).map fun text => ran (cmd text)).toList

def ScpOp.plan (L : Libs) (wd : PathBuf) : ScpOp → List Work
  | setstat path metadata =>
    let p := absolutize wd path
    (metadata.mode.map fun mode => ran (.chmod mode.toU32 p)).toList ++
      ((metadata.uid.map fun user => ran (.chown user metadata.gid p)).toList ++
        (touchPlan L metadata.accessed (.touchAccess · p) ++ touchPlan L metadata.modified (.touchModify · p)))
  | removeFile path => [ran (.removeFile (absolutize wd path))]
  | removeDir path => [ran (.removeDir (absolutize wd path))]
  | removeDirAll path => [ran (.removeDirAll (absolutize wd path))]
  | createDir path mode => [ran (.createDir mode.toU32 (absolutize wd path))]
  | symlink path target => [ran (.symlink target (absolutize wd path))]
  | copy src dest => [ran (.copy (absolutize wd src) (absolutize wd dest))]
  | mov src dest => [ran (.mov (absolutize wd src) (absolutize wd dest))]
  | exec cmd => [ran (.execAt wd cmd)]
  | create path metadata =>
    [.scpSend (absolutize wd path) ((metadata.mode.map UnixPex.toU32).getD 0o644) metadata.size
      (ScpFs.secsOrZero metadata.modified, ScpFs.secsOrZero metadata.accessed)]
  | _ => []

def SftpOp.plan (wd : PathBuf) : SftpOp → List Work
  | setstat path metadata => [.setstat (absolutize wd path) (SftpFs.metadataToFilestat metadata)]
  | removeFile path => [.unlink (absolutize wd path)]
  | removeDir path => [.rmdir (absolutize wd path)]
  | createDir path mode => [.mkdir (absolutize wd path) mode.toU32]
  | symlink path target => [.symlink target (absolutize wd path)]
  | copy src dest => [ran (.copy (absolutize wd src) (absolutize wd dest))]
  | mov src dest => [.renameOverwrite (absolutize wd src) (absolutize wd dest)]
  | exec cmd => [ran (.execAt wd cmd)]
  | append path metadata | appendFile _ _ path metadata =>
    [.openMode (absolutize wd path) [.create, .append, .write] (SftpFs.openMode metadata)]
  | create path metadata | createFile _ _ path metadata =>
    [.openMode (absolutize wd path) [.create, .write, .truncate] (SftpFs.openMode metadata)]
  | _ => []

/-- The errors of an operation that is refused. -/
def RemoteErrorType.refuses : RemoteErrorType → Bool
  | notConnected | noSuchFileOrDirectory | directoryAlreadyExists | unsupportedFeature => true
  | _ => false

def Refused (e : RemoteError) : Prop := e.kind.refuses = true

/-- An upload is told at its end how it went, in any words. -/
def SftpOp.Refused : SftpOp → RemoteError → Prop
  | appendFile .., _ | createFile .., _ => False
  | _, e => RemotefsSsh.Refused e

end RemotefsSsh
