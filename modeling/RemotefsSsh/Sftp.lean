import Mathlib.Algebra.Ring.Nat
import RemotefsSsh.Commons

/-!
# The SFTP client (ssh/sftp.rs)

Each operation is a program on the client record, as in `Scp.lean`. `remove_dir_all` is not here:
the crate leaves it to the trait's own body.

The three transfers share one loop (`transferLoop`), which differs only in where it reads and where
it writes. `usize` is as wide as the target's pointers: the announced size is cut to that width and
the byte count wraps at it. Every loop is given the number of iterations it may make; a run that
needs more ends in `spin`.
-/

namespace RemotefsSsh

open Utf8 UnixPath Effect Prog

structure SftpFs where
  session : Option SshSession
  sftp : Option SshSftp
  wrkdir : PathBuf
  opts : SshOpts

/-! ## The transfer loop -/

/-- The target's pointer width. -/
inductive PointerWidth where
  | w16
  | w32
  | w64
deriving DecidableEq, Repr

def PointerWidth.bits : PointerWidth → Nat
  | w16 => 16
  | w32 => 32
  | w64 => 64

/-- Values of `usize`. -/
def PointerWidth.modulus (w : PointerWidth) : Nat := 2 ^ w.bits

/-- The length of the copy buffer. -/
def bufferLen : Nat := 65535

/-- Where a transfer reads: the caller's reader, or an open remote file. -/
inductive Source where
  | reader
  | remote (file : RemoteFile)

/-- Where a transfer writes: an open remote file, or the caller's writer. -/
inductive Sink where
  | remote (file : RemoteFile)
  | writer

section
variable {κ σ : Type}

/-- One read into the buffer. -/
def Source.read : Source → Remote κ σ (Except IoError { bs : List UInt8 // bs.length ≤ bufferLen })
  | reader => ask (.readerRead bufferLen)
  | remote file => ask (.fileRead file bufferLen)

def Sink.write (buf : List UInt8) : Sink → Remote κ σ (Except IoError (Fin (buf.length + 1)))
  | remote file => ask (.fileWrite file buf)
  | writer => ask (.writerWrite buf)

/-- `while delta < bytes_read`: write until the buffer is used up. -/
def writeLoop (dst : Sink) (buffer : List UInt8) : Nat → Nat → Remote κ σ Unit
  | 0, _ => spin
  | fuel + 1, delta =>
    if delta < buffer.length then do
      match ← dst.write (buffer.drop delta) with
      | .error e => throw (.newEx .ioError e)
      | .ok n => writeLoop dst buffer fuel (delta + n)
    else pure ()

/-- `while bytes < transfer_size`. -/
def transferLoop (w : PointerWidth) (src : Source) (dst : Sink) (transferSize inner : Nat) :
    Nat → Nat → Remote κ σ Nat
  | 0, _ => spin
  | fuel + 1, bytes =>
    if bytes < transferSize then do
      match ← src.read with
      | .error e => throw (.newEx .ioError e)
      | .ok buffer =>
        writeLoop dst buffer.val inner 0
        transferLoop w src dst transferSize inner fuel ((bytes + buffer.val.length) % w.modulus)
    else pure bytes

/-- The loop from `bytes = 0`, towards a size given as `u64`. -/
def transfer (w : PointerWidth) (src : Source) (dst : Sink) (size : UInt64) (fuel : Nat) : Remote κ σ Nat :=
  transferLoop w src dst (size.toNat % w.modulus) fuel fuel 0

end

namespace SftpFs

variable {σ : Type}

/-- `SftpFs::new` (sftp.rs:32) -/
def new (opts : SshOpts) : SftpFs := ⟨none, none, ['/'], opts⟩

/-! ## Connection -/

def isConnected : Remote SftpFs σ Bool := do
  match (← self).session with
  | some session => ask (.authenticated session)
  | none => pure false

def checkConnection : Remote SftpFs σ Unit := do
  if ← isConnected then pure () else throw (.new .notConnected)

def connect : Remote SftpFs σ Welcome := do
  let session ← RemotefsSsh.connect (← self).opts
  ask (.setBlocking session true)
  match ← ask (.sftp session) with
  | .error err => throw (.newEx .protocolError err.display)
  | .ok sftp =>
    match ← ask (.realpath sftp dot) with
    | .error err => throw (.newEx .protocolError err.display)
    | .ok p =>
      modifySelf fun fs => { fs with wrkdir := p }
      modifySelf fun fs => { fs with session := some session }
      modifySelf fun fs => { fs with sftp := some sftp }
      let banner ← ask (.banner (← unwrap (← self).session))
      pure ⟨banner⟩

def disconnect : Remote SftpFs σ Unit := do
  match (← self).session with
  | some session =>
    match ← ask (.disconnect session "Mandi!".toList) with
    | .ok () =>
      modifySelf fun fs => { fs with session := none }
      modifySelf fun fs => { fs with sftp := none }
    | .error err => throw (.newEx .connectionError err.display)
  | none => throw (.new .notConnected)

def pwd : Remote SftpFs σ PathBuf := do
  checkConnection
  pure (← self).wrkdir

/-! ## Metadata -/

/-- A time of the server; the epoch when it is out of range. -/
def timeOfSecs (x : UInt64) : SystemTime := (SystemTime.UNIX_EPOCH.checkedAddSecs x).getD .UNIX_EPOCH

/-- The target of a symbolic link, if the server tells it (sftp.rs:83). -/
def linkTarget (path : PathBuf) (metadata : FileStat) : Remote SftpFs σ (Option PathBuf) := do
  if metadata.isSymlink then
    match ← ask (.readlink (← unwrap (← self).sftp) path) with
    | .ok p => pure (some p)
    | .error _ => pure none
  else pure none

/-- `make_fsentry` (sftp.rs:63) -/
def makeFsentry (path : PathBuf) (metadata : FileStat) : Remote SftpFs σ File := do
  let symlink ← linkTarget path metadata
  let fileType : FileType :=
    if symlink.isSome then .symlink else if metadata.isDir then .directory else .file
  pure {
    path
    metadata := {
      accessed := metadata.atime.map timeOfSecs, created := none, fileType, gid := metadata.gid,
      mode := metadata.perm.map UnixPex.ofU32, modified := metadata.mtime.map timeOfSecs,
      size := metadata.size.getD 0, symlink, uid := metadata.uid } }

/-- `metadata_to_filestat` (sftp.rs:122) -/
def metadataToFilestat (metadata : Metadata) : FileStat where
  size := some metadata.size
  uid := metadata.uid
  gid := metadata.gid
  perm := metadata.mode.map UnixPex.toU32
  atime := metadata.accessed.bind SystemTime.secsSinceEpoch
  mtime := metadata.modified.bind SystemTime.secsSinceEpoch

/-- An operation for which the SFTP channel must be there (`if let Some(sftp) = self.sftp`); it gets
the channel and the absolute path. -/
def withSftp {α : Type} (path : PathBuf) (op : SshSftp → PathBuf → Remote SftpFs σ α) : Remote SftpFs σ α := do
  match (← self).sftp with
  | some sftp => op sftp (absolutize (← self).wrkdir path)
  | none => throw (.new .notConnected)

/-- The answer of an SFTP request, its failure as an error of the given kind. -/
def orKind {α : Type} (kind : RemoteErrorType) (m : Remote SftpFs σ (Except SshError α)) : Remote SftpFs σ α := do
  match ← m with
  | .ok a => pure a
  | .error e => throw (.newEx kind e.display)

/-- `.iter().map(|(path, metadata)| self.make_fsentry(..))` -/
def makeFsentries : List (PathBuf × FileStat) → Remote SftpFs σ (List File)
  | [] => pure []
  | (path, metadata) :: rest => do
    let entry ← makeFsentry path metadata
    pure (entry :: (← makeFsentries rest))

def listDir (path : PathBuf) : Remote SftpFs σ (List File) :=
  withSftp path fun sftp path => do
    makeFsentries (← orKind .statFailed (ask (.readdir sftp path)))

def stat (path : PathBuf) : Remote SftpFs σ File :=
  withSftp path fun sftp path => do
    makeFsentry path (← orKind .noSuchFileOrDirectory (ask (.stat sftp path)))

def setstat (path : PathBuf) (metadata : Metadata) : Remote SftpFs σ Unit :=
  withSftp path fun sftp path =>
    orKind .statFailed (ask (.setstat sftp path (metadataToFilestat metadata)))

/-- `exists` (sftp.rs:268) -/
def existsPath (path : PathBuf) : Remote SftpFs σ Bool := do
  match ← attempt (stat path) with
  | .ok _ => pure true
  | .error err => if err.kind = .noSuchFileOrDirectory then pure false else throw err

/-- `self.exists(path).ok().unwrap_or(false)` -/
def existsOrFalse (path : PathBuf) : Remote SftpFs σ Bool := do
  match ← attempt (existsPath path) with
  | .ok b => pure b
  | .error _ => pure false

def changeDir (dir : PathBuf) : Remote SftpFs σ PathBuf := do
  checkConnection
  let dir := absolutize (← self).wrkdir dir
  let file ← stat dir
  if file.isDir then
    modifySelf fun fs => { fs with wrkdir := dir }
    pure (← self).wrkdir
  else throw (.newEx .badFile "expected directory, got file".toList)

/-! ## Changing the remote tree -/

def removeFile (path : PathBuf) : Remote SftpFs σ Unit :=
  withSftp path fun sftp path => orKind .couldNotRemoveFile (ask (.unlink sftp path))

def removeDir (path : PathBuf) : Remote SftpFs σ Unit :=
  withSftp path fun sftp path => orKind .couldNotRemoveFile (ask (.rmdir sftp path))

def createDir (path : PathBuf) (mode : UnixPex) : Remote SftpFs σ Unit := do
  checkConnection
  let path := absolutize (← self).wrkdir path
  if ← existsPath path then throw (.new .directoryAlreadyExists)
  else
    let sftp ← unwrap (← self).sftp
    orKind .fileCreateDenied (ask (.mkdir sftp path mode.toU32))

def symlink (path target : PathBuf) : Remote SftpFs σ Unit := do
  checkConnection
  let path := absolutize (← self).wrkdir path
  if ← existsPath target then
    let sftp ← unwrap (← self).sftp
    orKind .fileCreateDenied (ask (.symlink sftp target path))
  else throw (.new .noSuchFileOrDirectory)

def copy (src dest : PathBuf) : Remote SftpFs σ Unit := do
  checkConnection
  let src := absolutize (← self).wrkdir src
  if ← existsOrFalse src then
    let dest := absolutize (← self).wrkdir dest
    let session ← unwrap (← self).session
    match ← attempt (performShellCmdWithRc session (ShellCmd.copy src dest).text) with
    | .ok (rc, _) => if rc = 0 then pure () else throw (.newEx .fileCreateDenied (quoted dest))
    | .error err => throw (.newExErr .protocolError err)
  else throw (.new .noSuchFileOrDirectory)

def mov (src dest : PathBuf) : Remote SftpFs σ Unit := do
  checkConnection
  let src := absolutize (← self).wrkdir src
  if ← existsOrFalse src then
    let dest := absolutize (← self).wrkdir dest
    let sftp ← unwrap (← self).sftp
    orKind .fileCreateDenied (ask (.renameOverwrite sftp src dest))
  else throw (.new .noSuchFileOrDirectory)

def exec (cmd : Str) : Remote SftpFs σ (UInt32 × Str) := do
  checkConnection
  let session ← unwrap (← self).session
  performShellCmdAtWithRc session cmd (← self).wrkdir

/-! ## Streams and transfers -/

/-- The mode a file is opened with. -/
def openMode (metadata : Metadata) : UInt32 := (metadata.mode.map UnixPex.toU32).getD 0o644

def append (path : PathBuf) (metadata : Metadata) : Remote SftpFs σ RemoteFile :=
  withSftp path fun sftp path =>
    orKind .couldNotOpenFile (ask (.openMode sftp path [.create, .append, .write] (openMode metadata)))

def create (path : PathBuf) (metadata : Metadata) : Remote SftpFs σ RemoteFile :=
  withSftp path fun sftp path =>
    orKind .fileCreateDenied (ask (.openMode sftp path [.create, .write, .truncate] (openMode metadata)))

/-- `open` (sftp.rs:446) -/
def openRead (path : PathBuf) : Remote SftpFs σ RemoteFile := do
  checkConnection
  let path := absolutize (← self).wrkdir path
  if ← existsOrFalse path then
    let sftp ← unwrap (← self).sftp
    orKind .couldNotOpenFile (ask (.openRead sftp path))
  else throw (.new .noSuchFileOrDirectory)

/-- The end of a transfer: `on_written`, `on_read`. -/
def finish (m : Remote SftpFs σ (RemoteResult Unit)) : Remote SftpFs σ Unit := do
  match ← m with
  | .ok () => pure ()
  | .error e => throw e

/-- The body of both uploads, which differ in how they open the file. -/
def upload (w : PointerWidth) (fuel : Nat) (opening : Remote SftpFs σ RemoteFile) (metadata : Metadata) :
    Remote SftpFs σ UInt64 := do
  if ← isConnected then
    let stream ← opening
    let bytes ← transfer w .reader (.remote stream) metadata.size fuel
    finish (ask (.onWritten stream))
    pure (UInt64.ofNat bytes)
  else throw (.new .notConnected)

def appendFile (w : PointerWidth) (fuel : Nat) (path : PathBuf) (metadata : Metadata) : Remote SftpFs σ UInt64 :=
  upload w fuel (append path metadata) metadata

def createFile (w : PointerWidth) (fuel : Nat) (path : PathBuf) (metadata : Metadata) : Remote SftpFs σ UInt64 :=
  upload w fuel (create path metadata) metadata

def openFile (w : PointerWidth) (fuel : Nat) (src : PathBuf) : Remote SftpFs σ UInt64 := do
  if ← isConnected then
    let file ← stat src
    let stream ← openRead src
    let bytes ← transfer w (.remote stream) .writer file.metadata.size fuel
    finish (ask (.onRead stream))
    pure (UInt64.ofNat bytes)
  else throw (.new .notConnected)

end SftpFs

end RemotefsSsh
