import RemotefsSsh.Commons
import RemotefsSsh.Ls

/-!
# The SCP client (ssh/scp.rs)

Each operation is a program on the client record. `.as_mut().unwrap()` on the session is an
`unwrap` here and panics on `None`. Three names of the source are keywords or taken: `exists` is
`existsPath`, `open` is `openRead`, `session.unwrap()` with a command is `runRc`.
-/

namespace RemotefsSsh

open Utf8 UnixPath Effect Prog

structure ScpFs where
  session : Option SshSession
  wrkdir : PathBuf
  opts : SshOpts

namespace ScpFs

variable {σ : Type}

/-- `ScpFs::new` (scp.rs:36) -/
def new (opts : SshOpts) : ScpFs := ⟨none, ['/'], opts⟩

/-! ## Connection -/

def isConnected : Remote ScpFs σ Bool := do
  match (← self).session with
  | some session => ask (.authenticated session)
  | none => pure false

def checkConnection : Remote ScpFs σ Unit := do
  if ← isConnected then pure () else throw (.new .notConnected)

def connect : Remote ScpFs σ Welcome := do
  let session ← RemotefsSsh.connect (← self).opts
  let banner ← ask (.banner session)
  let output ← performShellCmd session ShellCmd.pwd.text
  modifySelf fun fs => { fs with wrkdir := trim output }
  modifySelf fun fs => { fs with session := some session }
  pure ⟨banner⟩

def disconnect : Remote ScpFs σ Unit := do
  match (← self).session with
  | some session =>
    match ← ask (.disconnect session "Mandi!".toList) with
    | .ok () => modifySelf fun fs => { fs with session := none }
    | .error err => throw (.newEx .connectionError err.display)
  | none => throw (.new .notConnected)

def pwd : Remote ScpFs σ PathBuf := do
  checkConnection
  pure (← self).wrkdir

/-! ## Commands that are judged by their exit code -/

/-- A command on `self.session.as_mut().unwrap()`: `bad` for an exit code other than 0, `kind` when
there is none. -/
def runRc (cmd : ShellCmd) (bad : RemoteError) (kind : RemoteErrorType) : Remote ScpFs σ Unit := do
  let session ← unwrap (← self).session
  match ← attempt (performShellCmdWithRc session cmd.text) with
  | .ok (rc, _) => if rc = 0 then pure () else throw bad
  | .error err => throw (.newExErr kind err)

/-- A `test` command: whether it exits with 0. -/
def runTest (cmd : ShellCmd) : Remote ScpFs σ Bool := do
  let session ← unwrap (← self).session
  match ← attempt (performShellCmdWithRc session cmd.text) with
  | .ok (rc, _) => pure (rc = 0)
  | .error err => throw (.newExErr .statFailed err)

/-- `assert_stat_command` (scp.rs:198) -/
def assertStatCommand (cmd : ShellCmd) : Remote ScpFs σ Unit :=
  runRc cmd (.new .statFailed) .protocolError

/-- `is_directory` (scp.rs:207) -/
def isDirectory (path : PathBuf) : Remote ScpFs σ Bool := do
  let path := absolutize (← self).wrkdir path
  runTest (.isDirectory path)

/-- `exists` (scp.rs:366) -/
def existsPath (path : PathBuf) : Remote ScpFs σ Bool := do
  checkConnection
  let path := absolutize (← self).wrkdir path
  runTest (.existsPath path)

/-- `self.exists(path).ok().unwrap_or(false)` -/
def existsOrFalse (path : PathBuf) : Remote ScpFs σ Bool := do
  match ← attempt (existsPath path) with
  | .ok b => pure b
  | .error _ => pure false

/-! ## Listing and `stat` -/

def changeDir (dir : PathBuf) : Remote ScpFs σ PathBuf := do
  checkConnection
  let dir := absolutize (← self).wrkdir dir
  let session ← unwrap (← self).session
  match ← attempt (performShellCmd session (ShellCmd.changeDir dir).text) with
  | .ok output =>
    let output := trim output
    if output.head? = some '0' then
      let rest ← ofOut (Out.unwrapSlice (sliceFrom output 1))
      modifySelf fun fs => { fs with wrkdir := trim rest }
      pure (← self).wrkdir
    else throw (.newEx .noSuchFileOrDirectory (quoted dir))
  | .error err => throw (.newExErr .protocolError err)

/-- One line through `parse_ls_output`, in the current year. -/
def parseLine (L : Libs) (path : PathBuf) (line : Str) : Remote ScpFs σ (Except Unit File) := do
  let thisYear ← ask .utcYear
  attempt (ofOut (parseLsOutput L thisYear path line))

/-- The loop over the lines of the listing; lines that are no entry are skipped. -/
def listLines (L : Libs) (path : PathBuf) : List Str → Remote ScpFs σ (List File)
  | [] => pure []
  | line :: rest => do
    match ← parseLine L path line with
    | .ok entry => do pure (entry :: (← listLines L path rest))
    | .error () => listLines L path rest

def listDir (L : Libs) (path : PathBuf) : Remote ScpFs σ (List File) := do
  checkConnection
  let path := absolutize (← self).wrkdir path
  if ← existsOrFalse path then
    let session ← unwrap (← self).session
    match ← attempt (performShellCmd session (ShellCmd.listDir path).text) with
    | .ok output => listLines L path (lines output)
    | .error err => throw (.newExErr .protocolError err)
  else throw (.new .noSuchFileOrDirectory)

def stat (L : Libs) (path : PathBuf) : Remote ScpFs σ File := do
  checkConnection
  let path := absolutize (← self).wrkdir path
  let cmd := if ← isDirectory path then ShellCmd.statDir path else .statFile path
  let session ← unwrap (← self).session
  match ← attempt (performShellCmd session cmd.text) with
  | .ok line =>
    match parent path with
    | none => throw (.newEx .statFailed "Path has no parent".toList)
    | some parent =>
      match ← parseLine L parent (trim line) with
      | .ok entry => pure entry
      | .error () => throw (.new .noSuchFileOrDirectory)
  | .error err => throw (.newExErr .protocolError err)

/-! ## Changing the remote tree -/

/-- A time argument of `touch`. -/
def touchTime (L : Libs) (t : SystemTime) : Remote ScpFs σ Str :=
  ofOut (fmtTimeUtc L.chrono t "%Y%m%d%H%M.%S".toList)

def setstat (L : Libs) (path : PathBuf) (metadata : Metadata) : Remote ScpFs σ Unit := do
  checkConnection
  let path := absolutize (← self).wrkdir path
  if ← existsOrFalse path then
    ifSome metadata.mode fun mode => assertStatCommand (.chmod mode.toU32 path)
    ifSome metadata.uid fun user => assertStatCommand (.chown user metadata.gid path)
    ifSome metadata.accessed fun accessed => do
      assertStatCommand (.touchAccess (← touchTime L accessed) path)
    ifSome metadata.modified fun modified => do
      assertStatCommand (.touchModify (← touchTime L modified) path)
  else throw (.new .noSuchFileOrDirectory)

def removeFile (path : PathBuf) : Remote ScpFs σ Unit := do
  checkConnection
  let path := absolutize (← self).wrkdir path
  if ← existsOrFalse path then runRc (.removeFile path) (.new .couldNotRemoveFile) .protocolError
  else throw (.new .noSuchFileOrDirectory)

def removeDir (path : PathBuf) : Remote ScpFs σ Unit := do
  checkConnection
  let path := absolutize (← self).wrkdir path
  if ← existsOrFalse path then runRc (.removeDir path) (.new .directoryNotEmpty) .protocolError
  else throw (.new .noSuchFileOrDirectory)

def removeDirAll (path : PathBuf) : Remote ScpFs σ Unit := do
  checkConnection
  let path := absolutize (← self).wrkdir path
  if ← existsOrFalse path then runRc (.removeDirAll path) (.new .couldNotRemoveFile) .protocolError
  else throw (.new .noSuchFileOrDirectory)

def createDir (path : PathBuf) (mode : UnixPex) : Remote ScpFs σ Unit := do
  checkConnection
  let path := absolutize (← self).wrkdir path
  if ← existsOrFalse path then throw (.new .directoryAlreadyExists)
  else runRc (.createDir mode.toU32 path) (.new .fileCreateDenied) .protocolError

def symlink (path target : PathBuf) : Remote ScpFs σ Unit := do
  checkConnection
  let path := absolutize (← self).wrkdir path
  if ← existsOrFalse target then
    if ← existsOrFalse path then throw (.new .fileCreateDenied)
    else runRc (.symlink target path) (.new .fileCreateDenied) .protocolError
  else throw (.new .noSuchFileOrDirectory)

def copy (src dest : PathBuf) : Remote ScpFs σ Unit := do
  checkConnection
  let src := absolutize (← self).wrkdir src
  if ← existsOrFalse src then
    let dest := absolutize (← self).wrkdir dest
    runRc (.copy src dest) (.newEx .fileCreateDenied (quoted dest)) .protocolError
  else throw (.new .noSuchFileOrDirectory)

def mov (src dest : PathBuf) : Remote ScpFs σ Unit := do
  checkConnection
  let src := absolutize (← self).wrkdir src
  if ← existsOrFalse src then
    let dest := absolutize (← self).wrkdir dest
    runRc (.mov src dest) (.newEx .fileCreateDenied (quoted dest)) .protocolError
  else throw (.new .noSuchFileOrDirectory)

def exec (cmd : Str) : Remote ScpFs σ (UInt32 × Str) := do
  checkConnection
  let session ← unwrap (← self).session
  performShellCmdAtWithRc session cmd (← self).wrkdir

/-! ## Streams -/

def append (_path : PathBuf) (_metadata : Metadata) : Remote ScpFs σ Channel :=
  throw (.new .unsupportedFeature)

/-- Seconds since the epoch, 0 for no time and for an earlier one. -/
def secsOrZero (t : Option SystemTime) : UInt64 := ((t.getD .UNIX_EPOCH).secsSinceEpoch).getD 0

def create (path : PathBuf) (metadata : Metadata) : Remote ScpFs σ Channel := do
  checkConnection
  let path := absolutize (← self).wrkdir path
  ask (.setBlocking (← unwrap (← self).session) true)
  let mode := (metadata.mode.map UnixPex.toU32).getD 0o644
  let accessed := secsOrZero metadata.accessed
  let modified := secsOrZero metadata.modified
  match ← ask (.scpSend (← unwrap (← self).session) path mode metadata.size (modified, accessed)) with
  | .ok channel => pure channel
  | .error err => throw (.newEx .fileCreateDenied err.display)

/-- `open` (scp.rs:623) -/
def openRead (path : PathBuf) : Remote ScpFs σ Channel := do
  checkConnection
  let path := absolutize (← self).wrkdir path
  if ← existsOrFalse path then
    ask (.setBlocking (← unwrap (← self).session) true)
    match ← ask (.scpRecv (← unwrap (← self).session) path) with
    | .ok channel => pure channel
    | .error err => throw (.newEx .couldNotOpenFile err.display)
  else throw (.new .noSuchFileOrDirectory)

end ScpFs

end RemotefsSsh
