import RemotefsSsh.Commands
import RemotefsSsh.Lib.Sh

/-!
# What the remote shell makes of the command lines

`commands` is what a line is meant to run: one command whose last words are the paths, with the
commands around it. The shell reads the line as that exactly when every path in it is `Sh.Plain`
(`line_reads_iff`): double quotes do not protect the backquote, the double quote, a `$` where an
expansion can start, and a backslash in front of one of these characters, of another backslash, of a
newline or of the closing quote.
-/

namespace RemotefsSsh

open Utf8 UnixPath

theorem quoted_eq (p : PathBuf) : quoted p = Sh.quote p := rfl

theorem ordinary_of_isDigit {c : Char} (h : c.isDigit = true) : Sh.ordinary c = true := by
  simp [Sh.ordinary, Char.isAlphanum, h]

theorem ordinary_decimal {n : Nat} : ∀ c ∈ decimal n, Sh.ordinary c = true := fun _ hc =>
  ordinary_of_isDigit (isDigit_of_mem_decimal hc)

theorem ordinary_octal {n : Nat} : ∀ c ∈ octal n, Sh.ordinary c = true := fun _ hc =>
  ordinary_of_isDigit (Nat.isDigit_of_mem_toDigits (by decide) (by decide) hc)

namespace ShellCmd

/-! ## What a line is meant to run -/

/-- The texts that stand between double quotes. -/
def paths : ShellCmd → List Str
  | pwd => []
  | changeDir p | statDir p | statFile p | isDirectory p | existsPath p => [p]
  | listDir p => [p ++ ['/']]
  | chmod _ p | chown _ _ p | touchAccess _ p | touchModify _ p | createDir _ p => [p]
  | removeFile p | removeDir p | removeDirAll p => [p]
  | symlink p q | copy p q | mov p q => [p, q]
  | execAt p _ => [p]

/-- The words in front of the paths. -/
def front : ShellCmd → List Str
  | pwd => ["pwd".toList]
  | changeDir _ | execAt .. => ["cd".toList]
  | listDir _ => ["ls".toList, "-la".toList]
  | statDir _ => ["ls".toList, "-ld".toList]
  | statFile _ => ["ls".toList, "-l".toList]
  | isDirectory _ => ["test".toList, "-d".toList]
  | existsPath _ => ["test".toList, "-e".toList]
  | chmod mode _ => ["chmod".toList, octal mode.toNat]
  | chown user gid _ =>
    ["chown".toList, decimal user.toNat ++ (gid.map fun x => ':' :: decimal x.toNat).getD []]
  | touchAccess time _ => ["touch".toList, "-a".toList, "-t".toList, time]
  | touchModify time _ => ["touch".toList, "-m".toList, "-t".toList, time]
  | removeFile _ => ["rm".toList, "-f".toList]
  | removeDir _ => ["rmdir".toList]
  | removeDirAll _ => ["rm".toList, "-rf".toList]
  | createDir mode _ => ["mkdir".toList, "-m".toList, octal mode.toNat]
  | symlink .. => ["ln".toList, "-s".toList]
  | copy .. => ["cp".toList, "-rf".toList]
  | mov .. => ["mv".toList, "-f".toList]

def before : ShellCmd → List (List Sh.Word)
  | listDir _ => [[Sh.lits "unset".toList, Sh.lits "LANG".toList]]
  | _ => []

/-- `echo $?` -/
def echoStatus : List Sh.Word := [Sh.lits "echo".toList, [.status]]

def after : ShellCmd → List (List Sh.Word)
  | changeDir _ => [echoStatus, [Sh.lits "pwd".toList]]
  | c => if c.withRc then [echoStatus] else []

def commands (c : ShellCmd) : List (List Sh.Word) :=
  c.before ++ ([c.front.map Sh.lits ++ c.paths.map Sh.lits] ++ c.after)

/-- A line built around paths only: a time given to `touch` is a plain numeral, and there is no
command of the caller in it. -/
def AroundPaths : ShellCmd → Prop
  | pwd | execAt .. => False
  | touchAccess time _ | touchModify time _ => time ≠ [] ∧ ∀ c ∈ time, Sh.ordinary c = true
  | _ => True

/-! ## How it is read -/

def beforeText : ShellCmd → Str
  | listDir _ => "unset LANG; ".toList
  | _ => []

def afterText : ShellCmd → Str
  | changeDir _ => "; echo $?; pwd".toList
  | c => if c.withRc then rcTail else []

theorem line_eq {c : ShellCmd} (hc : c.AroundPaths) :
    c.line = c.beforeText ++ (Sh.spaced c.front ++ (Sh.args c.paths ++ c.afterText)) := by
  cases c with
  | pwd => exact hc.elim
  | execAt => exact hc.elim
  | _ =>
    unfold line text beforeText front paths afterText
    simp [withRc, Sh.spaced, Sh.args, quoted_eq]

theorem run_before (c : ShellCmd) : Sh.Lex.start.run c.beforeText = ⟨.gap, [], [], c.before⟩ := by
  cases c <;> rfl

theorem rest_after (c : ShellCmd) : Sh.Lex.Rest c.afterText c.after := by
  have hrc : Sh.Lex.Rest rcTail [echoStatus] := by
    rw [show rcTail = ';' :: " echo $?".toList by decide]
    exact .more (by decide) (by decide)
  have hcd : Sh.Lex.Rest "; echo $?; pwd".toList [echoStatus, [Sh.lits "pwd".toList]] := by
    rw [show "; echo $?; pwd".toList = ';' :: " echo $?; pwd".toList by decide]
    exact .more (by decide) (by decide)
  cases c with
  | changeDir dir => exact hcd
  | pwd => exact .none
  | listDir path => exact .none
  | statDir path => exact .none
  | statFile path => exact .none
  | _ => exact hrc

theorem ordinary_front {c : ShellCmd} (hc : c.AroundPaths) :
    ∀ w ∈ c.front, w ≠ [] ∧ ∀ x ∈ w, Sh.ordinary x = true := by
  have hword : ∀ w : Str, (w ≠ [] ∧ ∀ x ∈ w, Sh.ordinary x = true) ↔ (w ≠ [] ∧ w.all Sh.ordinary = true) := by
    intro w; rw [List.all_eq_true]
  cases c with
  | pwd => exact hc.elim
  | execAt => exact hc.elim
  | chmod mode p =>
    simp only [front, List.forall_mem_cons, List.not_mem_nil, false_imp_iff, implies_true, and_true]
    exact ⟨(hword _).2 (by decide), Nat.toDigits_ne_nil, ordinary_octal⟩
  | createDir mode p =>
    simp only [front, List.forall_mem_cons, List.not_mem_nil, false_imp_iff, implies_true, and_true]
    exact ⟨(hword _).2 (by decide), (hword _).2 (by decide), Nat.toDigits_ne_nil, ordinary_octal⟩
  | chown user gid p =>
    simp only [front, List.forall_mem_cons, List.not_mem_nil, false_imp_iff, implies_true, and_true]
    refine ⟨(hword _).2 (by decide), by simp [decimal_ne_nil], fun x hx => ?_⟩
    rcases List.mem_append.1 hx with hx | hx
    · exact ordinary_decimal x hx
    · cases gid with
      | none => simp at hx
      | some g =>
        rcases List.mem_cons.1 hx with rfl | hx
        · decide
        · exact ordinary_decimal x hx
  | touchAccess time p =>
    simp only [front, List.forall_mem_cons, List.not_mem_nil, false_imp_iff, implies_true, and_true]
    exact ⟨(hword _).2 (by decide), (hword _).2 (by decide), (hword _).2 (by decide), hc⟩
  | touchModify time p =>
    simp only [front, List.forall_mem_cons, List.not_mem_nil, false_imp_iff, implies_true, and_true]
    exact ⟨(hword _).2 (by decide), (hword _).2 (by decide), (hword _).2 (by decide), hc⟩
  | _ =>
    simp only [front, hword]
    decide

theorem paths_ne_nil {c : ShellCmd} (hc : c.AroundPaths) : c.paths ≠ [] := by
  cases c with
  | pwd => exact hc.elim
  | execAt => exact hc.elim
  | _ => simp [paths]

/-- **A line is read as the command it is meant to be exactly when every path in it is plain.** -/
theorem line_reads_iff (c : ShellCmd) (hc : c.AroundPaths) :
    Sh.parse c.line = some c.commands ↔ ∀ p ∈ c.paths, Sh.Plain p := by
  rw [line_eq hc]
  exact Sh.Lex.line_read_iff (run_before c) (ordinary_front hc) (paths_ne_nil hc) (rest_after c)

theorem line_reads_removeDirAll :
    Sh.parse (removeDirAll "/tmp/a b".toList).line = some (removeDirAll "/tmp/a b".toList).commands :=
  (line_reads_iff (removeDirAll "/tmp/a b".toList) trivial).2 (by decide)

/-- The closing quote of a name ends the argument: what follows it is run. -/
theorem removeDirAll_runs_name :
    Sh.parse (removeDirAll "/a\"; reboot \"".toList).line =
        some [[Sh.lits "rm".toList, Sh.lits "-rf".toList, Sh.lits "/a".toList],
          [Sh.lits "reboot".toList, Sh.lits []], echoStatus] ∧
      Sh.parse (removeDirAll "/a\"; reboot \"".toList).line ≠ some
        (removeDirAll "/a\"; reboot \"".toList).commands := by
  decide

end ShellCmd

end RemotefsSsh
