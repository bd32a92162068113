import Mathlib.Order.Basic
import RemotefsSsh.Lib.Sh
import RemotefsSsh.Lib.Text

/-!
# Running the simple commands of a line

A shell that has read a line (`Sh.parse`) runs its commands one after another. `cd`, `pwd`, `echo`
and `unset` are its own; every other command is a utility of the `Machine`, which may change the
world the commands run in. `$?` is the exit status of the command before.

`Comes` says that the shell gets to a certain rest of its line, and where it stands then. It does so for
other commands as well: `Reads` are the texts that a shell begins to run. Of a text with a syntax error in
what it reads first it runs nothing.
-/

namespace Sh

open Utf8

/-- What the commands run on. A world is whatever they can change. -/
structure Machine (ω : Type) where
  /-- The directory a new shell starts in. -/
  home : Str
  /-- The directory `cd` leads to from another one, as `pwd` shows it. -/
  enter : ω → Str → Str → Option Str
  /-- A utility with its arguments: what it prints, its exit status, and the world after it. -/
  utility : ω → Str → List Str → Str × UInt8 × ω

structure Shell (ω : Type) where
  world : ω
  cwd : Str
  status : UInt8
  out : Str

/-- A word with `$?` replaced. -/
def expand (status : UInt8) (w : Word) : Str :=
  w.flatMap fun
    | .lit c => [c]
    | .status => decimal status.toNat

@[simp] theorem expand_lits (status : UInt8) (s : Str) : expand status (lits s) = s := by
  induction s with
  | nil => rfl
  | cons c s ih => simpa [expand, lits] using ih

@[simp] theorem expand_status (status : UInt8) : expand status [.status] = decimal status.toNat := by
  simp [expand]

@[simp] theorem map_expand_lits (status : UInt8) (ws : List Str) : (ws.map lits).map (expand status) = ws := by
  simp [Function.comp_def]

def cdWord : Str := "cd".toList
def pwdWord : Str := "pwd".toList
def echoWord : Str := "echo".toList
def unsetWord : Str := "unset".toList

/-- The commands the shell runs itself. -/
def builtin (c : Str) : Bool := c == cdWord || c == pwdWord || c == echoWord || c == unsetWord

namespace Machine

variable {ω : Type} (M : Machine ω)

/-- A `cd` that fails has the status 1, prints nothing and stays. -/
def changeDir (s : Shell ω) (dir : Str) : Shell ω :=
  match M.enter s.world s.cwd dir with
  | some d => { s with cwd := d, status := 0 }
  | none => { s with status := 1 }

def call (s : Shell ω) (ws : List Str) : Shell ω :=
  let r := M.utility s.world s.cwd ws
  { s with world := r.2.2, status := r.2.1, out := s.out ++ r.1 }

def command (s : Shell ω) (ws : List Str) : Shell ω :=
  match ws with
  | [] => s
  | c :: args =>
    if c = cdWord then M.changeDir s (args.headD [])
    else if c = pwdWord then { s with status := 0, out := s.out ++ (s.cwd ++ ['\n']) }
    else if c = echoWord then { s with status := 0, out := s.out ++ (List.intercalate [' '] args ++ ['\n']) }
    else if c = unsetWord then { s with status := 0 }
    else M.call s (c :: args)

def step (s : Shell ω) (cmd : List Word) : Shell ω := M.command s (cmd.map (expand s.status))

/-- A new shell. -/
def start (w : ω) : Shell ω := ⟨w, M.home, 0, []⟩

def run (cs : List (List Word)) (s : Shell ω) : Shell ω := cs.foldl M.step s

@[simp] theorem run_nil (s : Shell ω) : M.run [] s = s := rfl

@[simp] theorem run_cons (c : List Word) (cs : List (List Word)) (s : Shell ω) :
    M.run (c :: cs) s = M.run cs (M.step s c) := rfl

@[simp] theorem run_append (a b : List (List Word)) (s : Shell ω) : M.run (a ++ b) s = M.run b (M.run a s) :=
  List.foldl_append

theorem step_lits (s : Shell ω) (ws : List Str) : M.step s (ws.map lits) = M.command s ws := by
  unfold step
  rw [map_expand_lits]

theorem command_utility {c : Str} (hc : builtin c = false) (s : Shell ω) (args : List Str) :
    M.command s (c :: args) = M.call s (c :: args) := by
  simp only [builtin, Bool.or_eq_false_iff, beq_eq_false_iff_ne] at hc
  obtain ⟨⟨⟨h1, h2⟩, h3⟩, h4⟩ := hc
  simp only [command, h1, h2, h3, h4, ↓reduceIte]

theorem command_echo (s : Shell ω) (args : List Str) : M.command s (echoWord :: args) =
    { s with status := 0, out := s.out ++ (List.intercalate [' '] args ++ ['\n']) } := by
  simp [command, echoWord, cdWord, pwdWord]

/-- `echo $?` -/
theorem step_echo_status (s : Shell ω) :
    M.step s [lits echoWord, [.status]] =
      { s with status := 0, out := s.out ++ (decimal s.status.toNat ++ ['\n']) } := by
  have hexpand : ([lits echoWord, [.status]] : List Word).map (expand s.status) =
    [echoWord, decimal s.status.toNat] := by
    simp
  have hone : List.intercalate [' '] [decimal s.status.toNat] = decimal s.status.toNat := by simp [List.intercalate]
  unfold step
  rw [hexpand, command_echo, hone]

theorem step_pwd (s : Shell ω) :
    M.step s [lits pwdWord] = { s with status := 0, out := s.out ++ (s.cwd ++ ['\n']) } := by
  have hexpand : ([lits pwdWord] : List Word).map (expand s.status) = [pwdWord] := by simp
  unfold step
  rw [hexpand]
  rfl

/-- A utility, and then its exit status. -/
theorem run_utility_status {c : Str} (hc : builtin c = false) (args : List Str) (w : ω) :
    M.run [(c :: args).map lits, [lits echoWord, [.status]]] (M.start w) =
      ⟨(M.utility w M.home (c :: args)).2.2, M.home, 0, (M.utility w M.home (c :: args)).1 ++
        (decimal (M.utility w M.home (c :: args)).2.1.toNat ++ ['\n'])⟩ := by
  rw [run_cons, run_cons, run_nil, step_lits, command_utility M hc, step_echo_status]
  rfl

/-- A utility alone. -/
theorem run_utility {c : Str} (hc : builtin c = false) (args : List Str) (w : ω) :
    M.run [(c :: args).map lits] (M.start w) =
      ⟨(M.utility w M.home (c :: args)).2.2, M.home, (M.utility w M.home (c :: args)).2.1,
        (M.utility w M.home (c :: args)).1⟩ := by
  rw [run_cons, run_nil, step_lits, command_utility M hc]
  rfl

/-- A `cd`, its exit status, and where the shell is then. -/
theorem run_cd_status_pwd (dir : Str) (w : ω) :
    M.run [[lits cdWord, lits dir], [lits echoWord, [.status]], [lits pwdWord]] (M.start w) =
      match M.enter w M.home dir with
      | some d => ⟨w, d, 0, decimal 0 ++ '\n' :: (d ++ ['\n'])⟩
      | none => ⟨w, M.home, 0, decimal 1 ++ '\n' :: (M.home ++ ['\n'])⟩ := by
  have hcd : M.step (M.start w) [lits cdWord, lits dir] = M.changeDir (M.start w) dir := M.step_lits _ [cdWord, dir]
  rw [run_cons, run_cons, run_cons, run_nil, hcd, step_echo_status, step_pwd]
  unfold changeDir
  have henter : M.enter (M.start w).world (M.start w).cwd dir = M.enter w M.home dir := rfl
  rw [henter]
  cases M.enter w M.home dir <;> simp [start]

/-- What a shell without a reading of the line does is not known; one with a reading runs it. -/
def runLine (line : Str) (w : ω) : Option (Shell ω) := (parse line).map fun cs => M.run cs (M.start w)

theorem runLine_of_parse {line : Str} {cs : List (List Word)} (h : parse line = some cs) (w : ω) :
    M.runLine line w = some (M.run cs (M.start w)) := by
  unfold runLine
  rw [h, Option.map_some]

/-! ## How far the shell gets -/

/-- The shell begins to run the line, gets to the rest of it with all commands before complete, and stands in `cwd`. -/
def Comes (Reads : Str → Prop) (w : ω) (line rest cwd : Str) : Prop :=
  Reads line ∧ ∃ pre cs, line = pre ++ rest ∧ Lex.start.run pre = ⟨.gap, [], [], cs⟩ ∧ (M.run cs (M.start w)).cwd = cwd

/-- It gets there in one way only. -/
theorem Comes.unique {Reads : Str → Prop} {w : ω} {line rest a b : Str} (ha : M.Comes Reads w line rest a)
    (hb : M.Comes Reads w line rest b) : a = b := by
  obtain ⟨-, pre, cs, rfl, hcs, rfl⟩ := ha
  obtain ⟨-, pre', cs', hline, hcs', rfl⟩ := hb
  have hpre : pre = pre' := List.append_cancel_right hline
  subst hpre
  rw [hcs] at hcs'
  cases hcs'
  rfl

/-- A command behind a `cd` is reached in the directory that was entered, or else where the shell was. -/
theorem comes_cd {Reads : Str → Prop} {dir : Str} (hdir : Plain dir) (w : ω) (rest : Str)
    (hreads : Reads ("cd ".toList ++ quote dir ++ "; ".toList ++ rest)) :
    M.Comes Reads w ("cd ".toList ++ quote dir ++ "; ".toList ++ rest) rest ((M.enter w M.home dir).getD M.home) := by
  have hread : Lex.start.run ("cd ".toList ++ quote dir ++ "; ".toList) =
    ⟨.gap, [], [], [[lits cdWord, lits dir]]⟩ := by
    have hcd : Lex.start.run "cd ".toList = ⟨.gap, [], [lits cdWord], []⟩ := rfl
    rw [Lex.run_append, Lex.run_append, hcd, Lex.run_quote hdir]
    rfl
  refine ⟨hreads, _, _, rfl, hread, ?_⟩
  have hstep : M.run [[lits cdWord, lits dir]] (M.start w) = M.changeDir (M.start w) dir := M.step_lits _ [cdWord, dir]
  rw [hstep]
  unfold changeDir
  cases h : M.enter (M.start w).world (M.start w).cwd dir with
  | some d =>
    have h : M.enter w M.home dir = some d := h
    rw [h]
    rfl
  | none =>
    have h : M.enter w M.home dir = none := h
    rw [h]
    rfl

end Machine

end Sh
