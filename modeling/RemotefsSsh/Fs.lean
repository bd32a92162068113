import RemotefsSsh.Lib.UnixPath

/-!
# The data model: errors, metadata, file entries

| here | there |
| --- | --- |
| `RemoteErrorType`, `RemoteError` | `remotefs::{RemoteErrorType, RemoteError}`, the kinds this crate returns |
| `SystemTime`                     | `std::time::SystemTime` on Unix: signed 64-bit seconds and nanoseconds |
| `UnixPex`, `UnixPexClass`        | `remotefs::fs::{UnixPex, UnixPexClass}`: nine permission bits |
| `Metadata`, `File`               | `remotefs::fs::Metadata`, `remotefs::File` |
| `FileStat`                       | `ssh2::FileStat` |
-/

namespace RemotefsSsh

open Utf8 UnixPath

inductive RemoteErrorType where
  | authenticationFailed
  | badAddress
  | badFile
  | connectionError
  | couldNotOpenFile
  | couldNotRemoveFile
  | directoryAlreadyExists
  | directoryNotEmpty
  | fileCreateDenied
  | ioError
  | noSuchFileOrDirectory
  | notConnected
  | protocolError
  | statFailed
  | unsupportedFeature
deriving DecidableEq, Repr

/-- `RemoteError::new`, and `RemoteError::new_ex` of a text or of another error, whose `Display` is
then the message. -/
inductive RemoteError where
  | new (kind : RemoteErrorType)
  | newEx (kind : RemoteErrorType) (msg : Str)
  | newExErr (kind : RemoteErrorType) (err : RemoteError)
deriving DecidableEq, Repr

def RemoteError.kind : RemoteError → RemoteErrorType
  | new k => k
  | newEx k _ => k
  | newExErr k _ => k

abbrev RemoteResult (α : Type) := Except RemoteError α

/-! ## Times -/

structure SystemTime where
  secs : Int
  nanos : Nat
  secs_i64 : -9223372036854775808 ≤ secs ∧ secs < 9223372036854775808
  nanos_lt : nanos < 1000000000
deriving DecidableEq

def SystemTime.UNIX_EPOCH : SystemTime := ⟨0, 0, by decide, by decide⟩

/-- `checked_add(Duration::from_secs(d))` -/
def SystemTime.checkedAddSecs (t : SystemTime) (d : UInt64) : Option SystemTime :=
  if h : t.secs + d.toNat < 9223372036854775808 then
    some ⟨t.secs + d.toNat, t.nanos, by have := t.secs_i64; omega, t.nanos_lt⟩
  else none

/-- `duration_since(UNIX_EPOCH).ok().map(|x| x.as_secs())` -/
def SystemTime.secsSinceEpoch (t : SystemTime) : Option UInt64 :=
  if 0 ≤ t.secs then some (UInt64.ofNat t.secs.toNat) else none

/-! ## Permissions -/

structure UnixPexClass where
  read : Bool
  write : Bool
  execute : Bool
deriving DecidableEq, Repr

/-- `UnixPexClass::from(u8)` -/
def UnixPexClass.ofU8 (x : UInt8) : UnixPexClass :=
  ⟨(x >>> 2) &&& 1 != 0, (x >>> 1) &&& 1 != 0, x &&& 1 != 0⟩

def UnixPexClass.toU32 (c : UnixPexClass) : UInt32 :=
  (if c.read then 4 else 0) + (if c.write then 2 else 0) + (if c.execute then 1 else 0)

structure UnixPex where
  user : UnixPexClass
  group : UnixPexClass
  others : UnixPexClass
deriving DecidableEq, Repr

/-- `UnixPex::from(u32)` -/
def UnixPex.ofU32 (x : UInt32) : UnixPex :=
  ⟨.ofU8 ((x >>> 6) &&& 7).toUInt8, .ofU8 ((x >>> 3) &&& 7).toUInt8, .ofU8 (x &&& 7).toUInt8⟩

/-- `u32::from(UnixPex)` -/
def UnixPex.toU32 (p : UnixPex) : UInt32 :=
  (p.user.toU32 <<< 6) + (p.group.toU32 <<< 3) + p.others.toU32

/-! ## Entries -/

inductive FileType where
  | directory
  | file
  | symlink
deriving DecidableEq, Repr

structure Metadata where
  accessed : Option SystemTime
  created : Option SystemTime
  fileType : FileType
  gid : Option UInt32
  mode : Option UnixPex
  modified : Option SystemTime
  size : UInt64
  symlink : Option PathBuf
  uid : Option UInt32
deriving DecidableEq

/-- `Metadata::default()`, with a size. -/
def Metadata.ofSize (size : UInt64) : Metadata := ⟨none, none, .file, none, none, none, size, none, none⟩

structure File where
  path : PathBuf
  metadata : Metadata
deriving DecidableEq

def File.isDir (f : File) : Bool := f.metadata.fileType = .directory

structure Welcome where
  banner : Option Str
deriving DecidableEq, Repr

structure FileStat where
  size : Option UInt64
  uid : Option UInt32
  gid : Option UInt32
  perm : Option UInt32
  atime : Option UInt64
  mtime : Option UInt64
deriving DecidableEq, Repr

/-- The `S_IFMT` bits of a file mode, zero when the server sends none. -/
def FileStat.fileTypeBits (s : FileStat) : UInt32 := s.perm.getD 0 &&& 0o170000

def FileStat.isSymlink (s : FileStat) : Bool := s.fileTypeBits == 0o120000

def FileStat.isDir (s : FileStat) : Bool := s.fileTypeBits == 0o040000

/-! ## `absolutize` (utils/path.rs:11) -/

/-- `absolutize`; `resolve` (path.rs:30) is the identity on Unix. -/
def absolutize (wrkdir target : PathBuf) : PathBuf :=
  if isAbsolute target then target else push wrkdir target

theorem isAbsolute_absolutize {wrkdir : PathBuf} (h : isAbsolute wrkdir = true) (target : PathBuf) :
    isAbsolute (absolutize wrkdir target) = true := by
  unfold absolutize
  split
  · assumption
  · exact isAbsolute_push h

end RemotefsSsh
