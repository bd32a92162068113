import RemotefsSsh.Fs
import RemotefsSsh.Lib.Backtrack
import RemotefsSsh.Lib.Effect

/-!
# Reading a line of `ls -l` (ssh/scp.rs, utils/parser.rs, utils/fmt.rs)

| here | there |
| --- | --- |
| `lsRe`          | `LS_RE` (scp.rs:23) |
| `parseLsOutput` | `ScpFs::parse_ls_output` (scp.rs:61) |
| `getNameAndLink`| `ScpFs::get_name_and_link` (scp.rs:190) |
| `parseLstime`   | `parse_lstime` (parser.rs:14) |
| `fmtTimeUtc`    | `fmt_time_utc` (fmt.rs:10) |

The Unicode classes of the `regex` crate and the date functions of `chrono` come from outside and
are parameters (`Libs`). Of the classes only what their definitions say is used: `\d` and `\w` are
the ASCII ones on ASCII text and hold no white space.
-/

namespace RemotefsSsh

open Utf8 UnixPath Backtrack Effect

/-- The classes `\d` and `\w`; `\s` is `White_Space`. -/
structure Classes where
  digit : Char → Bool
  word : Char → Bool
  digit_ascii : ∀ c, c.toNat < 128 → digit c = c.isDigit
  word_ascii : ∀ c, c.toNat < 128 → word c = (c.isAlphanum || c == '_')
  digit_not_white : ∀ c, digit c = true → isWhite c = false
  word_not_white : ∀ c, word c = true → isWhite c = false

/-- The classes of an expression compiled without Unicode; on ASCII text they are the same. -/
def Classes.ascii : Classes where
  digit := Char.isDigit
  word c := c.isAlphanum || c == '_'
  digit_ascii _ _ := rfl
  word_ascii _ _ := rfl
  digit_not_white _ := isWhite_of_isDigit
  word_not_white c h := by
    simp only [Bool.or_eq_true, beq_iff_eq] at h
    rcases h with h | rfl
    · exact isWhite_of_isAlphanum h
    · decide

theorem Classes.digit_of_isDigit (K : Classes) {c : Char} (h : c.isDigit = true) : K.digit c = true := by
  have hc : 48 ≤ c.toNat ∧ c.toNat ≤ 57 := Char.isDigit_iff_toNat.1 h
  rw [K.digit_ascii c (by omega), h]

theorem Classes.word_of_isAlphanum (K : Classes) {c : Char} (h : c.isAlphanum = true) : K.word c = true := by
  have hc := toNat_of_isAlphanum h
  rw [K.word_ascii c (by omega), h]
  rfl

/-- What is used of `chrono`. The parsers answer with the Unix timestamp of the date (at midnight)
or date and time, read as UTC; `formatUtc` has no answer where the conversion panics. -/
structure Chrono where
  naiveDate : Str → Str → Option Int
  naiveDateTime : Str → Str → Option Int
  formatUtc : SystemTime → Str → Option Str

structure Libs where
  classes : Classes
  chrono : Chrono

/-! ## The expression -/

/-- `[\-ld]` -/
def typeLetter (c : Char) : Bool := c == '-' || c == 'l' || c == 'd'

/-- `[\-rwxsStT]` -/
def pexLetter (c : Char) : Bool :=
  c == '-' || c == 'r' || c == 'w' || c == 'x' || c == 's' || c == 'S' || c == 't' || c == 'T'

/-- `.` -/
def anyChar (c : Char) : Bool := c != '\n'

/-- `\s+` -/
def blanks : Pat Char := .rep isWhite 1 none

/-- `.+` -/
def someText : Pat Char := .rep anyChar 1 none

section
variable (K : Classes)

def digits (lo : Nat) (hi : Option Nat) : Pat Char := .rep K.digit lo hi

/-- `\d{1,2}:\d{1,2}|\d{4}` -/
def clockRe : Pat Char :=
  .alt (.seq (digits K 1 (some 2)) (.seq (.one (· == ':')) (digits K 1 (some 2)))) (digits K 4 (some 4))

/-- `\w{3}\s+\d{1,2}\s+(?:\d{1,2}:\d{1,2}|\d{4})` -/
def dateRe : Pat Char :=
  .seq (.rep K.word 3 (some 3)) (.seq blanks (.seq (digits K 1 (some 2)) (.seq blanks (clockRe K))))

def lsRe : Pat Char :=
  .seq (.group 1 (.one typeLetter)) <| .seq (.group 2 (.rep pexLetter 9 (some 9))) <|
  .seq blanks <| .seq (.group 3 (digits K 1 none)) <|
  .seq blanks <| .seq (.group 4 someText) <|
  .seq blanks <| .seq (.group 5 someText) <|
  .seq blanks <| .seq (.group 6 (digits K 1 none)) <|
  .seq blanks <| .seq (.group 7 (dateRe K)) <|
  .seq blanks <| .seq (.group 8 someText) .eot

end

/-! ## Times -/

/-- The numeral of a signed number (`Display`). -/
def decimalInt (n : Int) : Str := if n < 0 then '-' :: decimal (-n).toNat else decimal n.toNat

/-- `parse_lstime`; a negative timestamp wraps in the cast to `u64`. -/
def parseLstime (C : Chrono) (thisYear : Int) (tm fmtYear fmtHours : Str) : Option SystemTime :=
  let timestamp :=
    match C.naiveDate tm fmtYear with
    | some date => some date
    | none => C.naiveDateTime (tm ++ ' ' :: decimalInt thisYear) (fmtHours ++ " %Y".toList)
  timestamp.map fun t => (SystemTime.UNIX_EPOCH.checkedAddSecs (UInt64.ofInt t)).getD .UNIX_EPOCH

/-- `fmt_time_utc` -/
def fmtTimeUtc {ε : Type} (C : Chrono) (time : SystemTime) (fmt : Str) : Out ε Str :=
  match C.formatUtc time fmt with
  | some s => .ok s
  | none => .panic .outOfRange

/-! ## `parse_ls_output` -/

/-- Whether the type letter says directory, and whether it says symbolic link. -/
def lsType (s : Str) : Out Unit (Bool × Bool) :=
  if s = ['-'] then .ok (false, false)
  else if s = ['l'] then .ok (false, true)
  else if s = ['d'] then .ok (true, false)
  else .err ()

/-- `&s[lo..hi]` -/
def slice (s : Str) (lo hi : Nat) : Out Unit Str := do
  let t ← Out.unwrapSlice (sliceTo s hi)
  Out.unwrapSlice (sliceFrom t lo)

def pexWeight : Nat → UInt8
  | 0 => 4
  | 1 => 2
  | 2 => 1
  | _ => 0

/-- The closure `pex`, on the slice. -/
def pex (s : Str) : UInt8 :=
  s.zipIdx.foldl (fun count ci => if ci.1 = '-' then count else count + pexWeight ci.2) 0

def arrow : Str := " -> ".toList

def getNameAndLink (token : Str) : Out Unit (Str × Option PathBuf) := do
  let tokens := split arrow token
  let filename ← Out.unwrap tokens.head?
  .ok (filename, tokens[1]?)

/-- The last component of a name, or the name itself when it has none. -/
def sanitize (name : Str) : Str := (fileName name).getD name

def parseLsOutput (L : Libs) (thisYear : Int) (path : PathBuf) (line : Str) : Out Unit File :=
  match (lsRe L.classes).captures line with
  | none => .err ()
  | some metadata => do
    -- `Captures::len` counts the groups and the whole match
    if metadata.caps.length + 1 < 8 then .err ()
    else
      let (isDir, isSymlink) ← lsType (← Out.unwrap (metadata.group 1))
      let perms ← Out.unwrap (metadata.group 2)
      if byteLen perms < 9 then .err ()
      else
        let mode : UnixPex :=
          ⟨.ofU8 (pex (← slice perms 0 3)), .ofU8 (pex (← slice perms 3 6)), .ofU8 (pex (← slice perms 6 9))⟩
        let date ← Out.unwrap (metadata.group 7)
        let modified := (parseLstime L.chrono thisYear date "%b %d %Y".toList "%b %d %H:%M".toList).getD .UNIX_EPOCH
        let uid := parseU32 (← Out.unwrap (metadata.group 4))
        let gid := parseU32 (← Out.unwrap (metadata.group 5))
        let size := (parseU64 (← Out.unwrap (metadata.group 6))).getD 0
        let token ← Out.unwrap (metadata.group 8)
        let (name, symlink) ← if isSymlink then getNameAndLink token else .ok (token, none)
        let fileName := sanitize name
        if fileName = dot ∨ fileName = dotDot then .err ()
        else
          let fileType : FileType :=
            if symlink.isSome then .symlink else if isDir then .directory else .file
          .ok {
            path := push path fileName
            metadata := {
              accessed := none, created := none, fileType, gid, mode := some mode,
              modified := some modified, size, symlink, uid } }

end RemotefsSsh
