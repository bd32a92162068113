import Mathlib.Algebra.Ring.Nat
import RemotefsSsh.Lib.Utf8

/-!
# Reading a command line as a POSIX shell does

The part of the shell's lexical rules that simple command lines need: unquoted words separated by
blanks, commands separated by `;`, the parameter `$?`, and double quotes, inside which only `$`, the
backquote, the double quote and the backslash are special; a backslash quotes one of these or joins
lines, and stands for itself in front of anything else, and `$` stands for itself where no expansion
can start. Whatever else the rules give a meaning to (an expansion, a command substitution, an
operator, a pattern) ends in the mode `other`, which no text leaves.

`args_read_iff` says when a row of double-quoted arguments is read as the words that were put
between the quotes: exactly when each of them is `Plain`. The argument is a count: no character adds
more than one to the `size` of what was read, and a double quote adds nothing, so nothing may be
lost on the way.
-/

namespace Sh

open Utf8

inductive Piece where
  | lit (c : Char)
  /-- The parameter `$?`. -/
  | status
deriving DecidableEq, Repr

abbrev Word := List Piece

/-- A word that is a text. -/
def lits (s : Str) : Word := s.map .lit

@[simp] theorem length_lits (s : Str) : (lits s).length = s.length := List.length_map _

inductive Mode where
  | gap
  | word
  | quoted
  | escaped
  | dollar
  /-- Behind a dollar sign inside the quotes. -/
  | quotedDollar
  | other
deriving DecidableEq, Repr

structure Lex where
  mode : Mode
  word : Word
  words : List Word
  cmds : List (List Word)
deriving DecidableEq, Repr

/-- The backquote. -/
def backquote : Char := Char.ofNat 96

/-- What a backslash quotes inside double quotes. -/
def escapable (c : Char) : Bool := c == '$' || c == backquote || c == '"' || c == '\\'

/-- What a dollar sign starts an expansion in front of: a name, a positional or a special parameter, `{` and `(`. In
front of `[` the rules leave it open, and some shells calculate. -/
def expands (c : Char) : Bool :=
  c.isAlphanum || c == '_' || c == '@' || c == '*' || c == '#' || c == '?' || c == '-' || c == '$' || c == '!' ||
    c == '{' || c == '(' || c == '['

/-- A character that means nothing to the shell outside quotes. -/
def ordinary (c : Char) : Bool :=
  c.isAlphanum || c == '-' || c == '+' || c == '.' || c == ':' || c == '/' || c == '_'

def isBlank (c : Char) : Bool := c == ' ' || c == '\t'

namespace Lex

def start : Lex := ⟨.gap, [], [], []⟩

def emit (l : Lex) (w : Word) (m : Mode) : Lex := { l with word := l.word ++ w, mode := m }

def fail (l : Lex) : Lex := { l with mode := .other }

def endWord (l : Lex) : Lex := ⟨.gap, [], l.words ++ [l.word], l.cmds⟩

def endCmd (l : Lex) : Lex := if l.words = [] then l.fail else ⟨.gap, [], [], l.cmds ++ [l.words]⟩

/-- A character of a word outside quotes. -/
def unquoted (l : Lex) (c : Char) : Lex :=
  if c = '"' then { l with mode := .quoted }
  else if c = '$' then { l with mode := .dollar }
  else if ordinary c then l.emit [.lit c] .word
  else l.fail

/-- A character inside the quotes. -/
def inQuotes (l : Lex) (c : Char) : Lex :=
  if c = '"' then { l with mode := .word }
  else if c = '\\' then { l with mode := .escaped }
  else if c = '$' then { l with mode := .quotedDollar }
  else if c = backquote then l.fail
  else l.emit [.lit c] .quoted

def step (l : Lex) (c : Char) : Lex :=
  match l.mode with
  | .gap => if isBlank c then l else if c = ';' then l.endCmd else l.unquoted c
  | .word => if isBlank c then l.endWord else if c = ';' then l.endWord.endCmd else l.unquoted c
  | .quoted => l.inQuotes c
  | .escaped =>
    if escapable c then l.emit [.lit c] .quoted
    else if c = '\n' then { l with mode := .quoted }
    else l.emit [.lit '\\', .lit c] .quoted
  | .dollar => if c = '?' then l.emit [.status] .word else l.fail
  | .quotedDollar => if expands c then l.fail else (l.emit [.lit '$'] .quoted).inQuotes c
  | .other => l

def run (l : Lex) (s : Str) : Lex := s.foldl step l

/-- The commands at the end of the text. -/
def finish (l : Lex) : Option (List (List Word)) :=
  match l.mode with
  | .gap => some (if l.words = [] then l.cmds else l.cmds ++ [l.words])
  | .word => some (l.cmds ++ [l.words ++ [l.word]])
  | _ => none

@[simp] theorem run_nil (l : Lex) : l.run [] = l := rfl

@[simp] theorem run_cons (l : Lex) (c : Char) (s : Str) : l.run (c :: s) = (l.step c).run s := rfl

@[simp] theorem run_append (l : Lex) (a b : Str) : l.run (a ++ b) = (l.run a).run b := List.foldl_append

end Lex

/-- The simple commands of a line, each as its words. -/
def parse (s : Str) : Option (List (List Word)) := (Lex.start.run s).finish

/-- A text that double quotes preserve. -/
inductive Plain : Str → Prop
  | nil : Plain []
  | char {c : Char} {s : Str} : escapable c = false → Plain s → Plain (c :: s)
  | backslash {c : Char} {s : Str} : escapable c = false → c ≠ '\n' → Plain (c :: s) → Plain ('\\' :: c :: s)
  | dollar {s : Str} : (∀ c, s.head? = some c → expands c = false) → Plain s → Plain ('$' :: s)

/-- What `c` must be followed by for double quotes to preserve it. -/
def keeps (c : Char) (s : Str) : Bool :=
  if c = '\\' then s.head?.any fun d => !escapable d && d != '\n'
  else if c = '$' then s.head?.all fun d => !expands d
  else !escapable c

def isPlain : Str → Bool
  | [] => true
  | c :: s => keeps c s && isPlain s

theorem isPlain_iff {s : Str} : isPlain s = true ↔ Plain s := by
  constructor
  · intro h
    induction s with
    | nil => exact .nil
    | cons c s ih =>
      simp only [isPlain, keeps, Bool.and_eq_true] at h
      obtain ⟨hc, hs⟩ := h
      by_cases hb : c = '\\'
      · subst hb
        cases s with
        | nil => simp at hc
        | cons d t =>
          simp only [↓reduceIte, List.head?_cons, Option.any_some, Bool.and_eq_true, Bool.not_eq_true',
            bne_iff_ne, ne_eq] at hc
          exact .backslash hc.1 hc.2 (ih hs)
      · rw [if_neg hb] at hc
        by_cases hd : c = '$'
        · subst hd
          rw [if_pos rfl] at hc
          refine .dollar (fun d hd => ?_) (ih hs)
          rw [hd, Option.all_some, Bool.not_eq_true'] at hc
          exact hc
        · rw [if_neg hd, Bool.not_eq_true'] at hc
          exact .char hc (ih hs)
  · intro h
    induction h with
    | nil => rfl
    | @char c s hc _ ih =>
      have hb : c ≠ '\\' := by rintro rfl; simp [escapable] at hc
      have hd : c ≠ '$' := by rintro rfl; simp [escapable] at hc
      simp [isPlain, keeps, hb, hd, hc, ih]
    | backslash hc hn _ ih => simp [isPlain, keeps, hc, hn] at ih ⊢; exact ih
    | @dollar s hs _ ih =>
      have hall : (s.head?.all fun d => !expands d) = true := by
        cases h : s.head? with
        | none => rfl
        | some d => rw [Option.all_some, hs d h, Bool.not_false]
      simp [isPlain, keeps, hall, ih]

instance : DecidablePred Plain := fun _ => decidable_of_iff _ isPlain_iff

example : Plain "US$ 5".toList ∧ ¬ Plain "$HOME".toList := by decide

/-- A slash parts a text into two that are plain by themselves. -/
theorem plain_append_slash {a b : Str} : Plain (a ++ '/' :: b) ↔ Plain (a ++ ['/']) ∧ Plain b := by
  have key : isPlain (a ++ '/' :: b) = (isPlain (a ++ ['/']) && isPlain b) := by
    induction a with
    | nil => rfl
    | cons c a ih =>
      have hhead : (a ++ '/' :: b).head? = (a ++ ['/']).head? := by cases a <;> rfl
      have hkeeps : keeps c (a ++ '/' :: b) = keeps c (a ++ ['/']) := by simp only [keeps, hhead]
      rw [List.cons_append, List.cons_append, isPlain, isPlain, ih, hkeeps, Bool.and_assoc]
  rw [← isPlain_iff, key, Bool.and_eq_true, isPlain_iff, isPlain_iff]

/-- A text between double quotes. -/
def quote (p : Str) : Str := '"' :: p ++ ['"']

/-- Quoted arguments with a blank between them. -/
def args : List Str → Str
  | [] => []
  | [p] => quote p
  | p :: ps => quote p ++ ' ' :: args ps

/-- Words with a blank behind each. -/
def spaced (ws : List Str) : Str := (ws.map (· ++ [' '])).flatten

theorem spaced_cons (w : Str) (ws : List Str) : spaced (w :: ws) = w ++ ' ' :: spaced ws := by simp [spaced]

/-! ## Plain text inside the quotes -/

namespace Lex

theorem step_quoted {l : Lex} {c : Char} (hm : l.mode = .quoted) (hc : escapable c = false) :
    l.step c = l.emit [.lit c] .quoted := by
  simp only [escapable, Bool.or_eq_false_iff, beq_eq_false_iff_ne] at hc
  simp [step, inQuotes, hm, hc]

/-- A dollar sign that starts no expansion stands for itself. -/
theorem step_dollar {l : Lex} (hm : l.mode = .quoted) {c : Char} (hc : expands c = false) :
    (l.step '$').step c = (l.emit [.lit '$'] .quoted).step c := by
  simp [step, inQuotes, emit, hm, hc]

/-- Plain text is read inside the quotes as itself, up to the closing quote. -/
theorem run_plain {p : Str} (h : Plain p) {l : Lex} (hm : l.mode = .quoted) :
    (l.run p).step '"' = l.emit (lits p) .word := by
  induction h generalizing l with
  | nil => obtain ⟨m, w, ws, cs⟩ := l; cases hm; simp [emit, lits, step, inQuotes]
  | char hc _ ih =>
    rw [run_cons, step_quoted hm hc, ih rfl]
    simp [emit, lits]
  | @dollar s hs _ ih =>
    have h2 := ih (l := l.emit [.lit '$'] .quoted) rfl
    cases s with
    | nil =>
      have hquote : expands '"' = false := by decide
      rw [run_cons, run_nil, step_dollar hm hquote]
      rw [run_nil] at h2
      rw [h2]
      simp [emit, lits]
    | cons d s =>
      rw [run_cons] at h2
      rw [run_cons, run_cons, step_dollar hm (hs d rfl), h2]
      simp [emit, lits]
  | @backslash c s hc hn _ ih =>
    -- two steps: the backslash waits for `c`, then both are emitted
    have h2 := ih (l := l.emit [.lit '\\'] .quoted) rfl
    rw [run_cons, step_quoted rfl hc] at h2
    have h3 : ((l.step '\\').step c) = (l.emit [.lit '\\'] .quoted).emit [.lit c] .quoted := by
      simp [step, inQuotes, hm, hc, hn, emit]
    rw [run_cons, run_cons, h3, h2]
    simp [emit, lits]

/-- One quoted plain argument, from between two words. -/
theorem run_quote {p : Str} (h : Plain p) (ws : List Word) (cs : List (List Word)) :
    (Lex.mk .gap [] ws cs).run (quote p) = ⟨.word, lits p, ws, cs⟩ := by
  have h1 : (Lex.mk .gap [] ws cs).step '"' = ⟨.quoted, [], ws, cs⟩ := rfl
  rw [quote, List.cons_append, run_cons, h1, run_append, run_cons, run_nil, run_plain h rfl]
  rfl

theorem ordinary_spec {c : Char} (h : ordinary c = true) : isBlank c = false ∧ c ≠ ';' ∧ c ≠ '"' ∧ c ≠ '$' := by
  refine ⟨?_, ?_, ?_, ?_⟩
  · simp only [isBlank, Bool.or_eq_false_iff, beq_eq_false_iff_ne]
    constructor <;> rintro rfl <;> simp [ordinary] at h
  all_goals rintro rfl; simp [ordinary] at h

theorem step_ordinary {l : Lex} {c : Char} (hm : l.mode = .gap ∨ l.mode = .word) (h : ordinary c = true) :
    l.step c = l.emit [.lit c] .word := by
  obtain ⟨h1, h2, h3, h4⟩ := ordinary_spec h
  rcases hm with hm | hm <;> simp [step, unquoted, hm, h, h1, h2, h3, h4]

/-- A word of ordinary characters. -/
theorem run_ordinary {s : Str} (hs : ∀ c ∈ s, ordinary c = true) (hne : s ≠ []) {l : Lex}
    (hm : l.mode = .gap ∨ l.mode = .word) : l.run s = l.emit (lits s) .word := by
  induction s generalizing l with
  | nil => exact absurd rfl hne
  | cons c t ih =>
    rw [run_cons, step_ordinary hm (hs c List.mem_cons_self)]
    cases t with
    | nil => rfl
    | cons d t =>
      rw [ih (fun e he => hs e (List.mem_cons_of_mem c he)) (List.cons_ne_nil d t) (Or.inr rfl)]
      simp [emit, lits]

/-- A row of quoted plain arguments. -/
theorem run_args {ps : List Str} (hne : ps ≠ []) (hp : ∀ p ∈ ps, Plain p) (ws : List Word)
    (cs : List (List Word)) :
    (Lex.mk .gap [] ws cs).run (args ps) =
      ⟨.word, lits (ps.getLast hne), ws ++ ps.dropLast.map lits, cs⟩ := by
  induction ps generalizing ws with
  | nil => exact absurd rfl hne
  | cons p ps ih =>
    have hp1 := hp p List.mem_cons_self
    cases ps with
    | nil => simp [args, run_quote hp1]
    | cons q qs =>
      have h := ih (List.cons_ne_nil q qs) (fun r hr => hp r (List.mem_cons_of_mem p hr)) (ws ++ [lits p])
      have hsp : (Lex.mk .word (lits p) ws cs).step ' ' = ⟨.gap, [], ws ++ [lits p], cs⟩ := rfl
      rw [args, run_append, run_quote hp1, run_cons, hsp, h]
      · simp
      · simp

/-! ## What was read so far -/

/-- The commands that are complete stay in front of the others. -/
def addCmds (cs : List (List Word)) (l : Lex) : Lex := { l with cmds := cs ++ l.cmds }

theorem endCmd_addCmds (cs : List (List Word)) (l : Lex) : (l.addCmds cs).endCmd = l.endCmd.addCmds cs := by
  by_cases h : l.words = [] <;> simp [endCmd, addCmds, fail, h]

theorem unquoted_addCmds (cs : List (List Word)) (l : Lex) (c : Char) :
    (l.addCmds cs).unquoted c = (l.unquoted c).addCmds cs := by
  unfold unquoted
  repeat' split
  all_goals rfl

theorem inQuotes_addCmds (cs : List (List Word)) (l : Lex) (c : Char) :
    (l.addCmds cs).inQuotes c = (l.inQuotes c).addCmds cs := by
  unfold inQuotes
  repeat' split
  all_goals rfl

theorem step_addCmds (cs : List (List Word)) (l : Lex) (c : Char) :
    (l.addCmds cs).step c = (l.step c).addCmds cs := by
  have hend : (l.addCmds cs).endWord = l.endWord.addCmds cs := rfl
  have hsign : (l.addCmds cs).emit [.lit '$'] .quoted = (l.emit [.lit '$'] .quoted).addCmds cs := rfl
  have hm : (l.addCmds cs).mode = l.mode := rfl
  unfold step
  rw [hm, hend, hsign, endCmd_addCmds, endCmd_addCmds, unquoted_addCmds, inQuotes_addCmds, inQuotes_addCmds]
  split <;> (repeat' split) <;> rfl

theorem run_addCmds (cs : List (List Word)) (l : Lex) (s : Str) :
    (l.addCmds cs).run s = (l.run s).addCmds cs := by
  induction s generalizing l with
  | nil => rfl
  | cons c s ih => rw [run_cons, step_addCmds, ih, run_cons]

theorem finish_addCmds (cs : List (List Word)) (l : Lex) : (l.addCmds cs).finish = l.finish.map (cs ++ ·) := by
  obtain ⟨m, w, ws, ds⟩ := l
  cases m <;> simp [addCmds, finish]
  split <;> simp

/-- What follows a complete command is read as if it stood alone. -/
theorem finish_run_gap (cs : List (List Word)) (s : Str) :
    ((Lex.mk .gap [] [] cs).run s).finish = (parse s).map (cs ++ ·) := by
  have h : Lex.mk .gap [] [] cs = start.addCmds cs := by simp [addCmds, start]
  rw [h, run_addCmds, finish_addCmds]
  rfl

/-! ## Nothing may be lost -/

/-- Pieces, and one for each word that is complete. -/
def wordsSize (ws : List Word) : Nat := (ws.map fun w => w.length + 1).sum

@[simp] theorem wordsSize_nil : wordsSize [] = 0 := rfl

@[simp] theorem wordsSize_append (a b : List Word) : wordsSize (a ++ b) = wordsSize a + wordsSize b := by
  simp [wordsSize]

@[simp] theorem wordsSize_singleton (w : Word) : wordsSize [w] = w.length + 1 := by simp [wordsSize]

/-- A backslash or dollar sign that waits for the next character counts. -/
def pending : Mode → Nat
  | .escaped | .dollar | .quotedDollar => 1
  | _ => 0

@[simp] theorem pending_gap : pending .gap = 0 := rfl
@[simp] theorem pending_word : pending .word = 0 := rfl
@[simp] theorem pending_quoted : pending .quoted = 0 := rfl
@[simp] theorem pending_escaped : pending .escaped = 1 := rfl
@[simp] theorem pending_dollar : pending .dollar = 1 := rfl
@[simp] theorem pending_quotedDollar : pending .quotedDollar = 1 := rfl
@[simp] theorem pending_other : pending .other = 0 := rfl

def size (l : Lex) : Nat := wordsSize l.cmds.flatten + wordsSize l.words + l.word.length + pending l.mode

/-- What a character can add. -/
def weight (c : Char) : Nat := if c = '"' then 0 else 1

theorem size_emit (l : Lex) (w : Word) {m : Mode} (hm : pending m = 0) :
    (l.emit w m).size + pending l.mode = l.size + w.length := by
  simp only [emit, size, hm, List.length_append]; omega

theorem size_setMode (l : Lex) (m : Mode) : { l with mode := m }.size + pending l.mode = l.size + pending m := by
  simp only [size]; omega

theorem size_fail (l : Lex) : l.fail.size ≤ l.size := by
  have := size_setMode l .other
  simp only [pending_other, fail] at this ⊢; omega

theorem size_endWord {l : Lex} (hm : pending l.mode = 0) : l.endWord.size = l.size + 1 := by
  simp [endWord, size, hm]; omega

theorem size_endCmd (l : Lex) : l.endCmd.size ≤ l.size := by
  unfold endCmd
  split
  · exact size_fail l
  · simp [size]; omega

theorem size_unquoted {l : Lex} (hm : pending l.mode = 0) (c : Char) :
    (l.unquoted c).size ≤ l.size + weight c := by
  have h := size_emit l [.lit c] pending_word
  have hf := size_fail l
  have hq := size_setMode l .quoted
  have hd := size_setMode l .dollar
  simp only [pending_quoted, pending_dollar, List.length_singleton] at h hq hd
  unfold unquoted weight
  repeat' split
  all_goals omega

theorem weight_of_ne {c : Char} (h : c ≠ '"') : weight c = 1 := if_neg h

theorem size_inQuotes {l : Lex} (hm : pending l.mode = 0) (c : Char) : (l.inQuotes c).size ≤ l.size + weight c := by
  have hf := size_fail l
  have hemit := size_emit l [.lit c] pending_quoted
  have hword := size_setMode l .word
  have hesc := size_setMode l .escaped
  have hdollar := size_setMode l .quotedDollar
  simp only [pending_word, pending_escaped, pending_quotedDollar, List.length_singleton] at hemit hword hesc hdollar
  unfold inQuotes weight
  repeat' split
  all_goals omega

theorem size_step (l : Lex) (c : Char) : (l.step c).size ≤ l.size + weight c := by
  have hf := size_fail l
  have hq := size_setMode l .quoted
  have hemit := size_emit l [.lit c] pending_quoted
  simp only [pending_quoted, List.length_singleton] at hq hemit
  unfold step
  split <;> rename_i hm <;> simp only [hm, pending_quoted, pending_escaped, pending_dollar] at hq hemit
  · split
    · omega
    · split
      · exact Nat.le_add_right_of_le (size_endCmd l)
      · exact size_unquoted (by rw [hm, pending_gap]) c
  · have he := size_endWord (l := l) (by rw [hm, pending_word])
    split
    · rename_i hb; rw [weight_of_ne (by rintro rfl; simp [isBlank] at hb), he]
    · split
      · rename_i hc; have := size_endCmd l.endWord; rw [weight_of_ne (by rintro rfl; simp at hc)]; omega
      · exact size_unquoted (by rw [hm, pending_word]) c
  · exact size_inQuotes (by rw [hm, pending_quoted]) c
  · split
    · omega
    · rename_i hc
      have := size_emit l [.lit '\\', .lit c] pending_quoted
      simp only [hm, pending_escaped, List.length_cons, List.length_nil] at this
      rw [weight_of_ne (by rintro rfl; simp [escapable] at hc)]
      split <;> omega
  · have := size_emit l [.status] pending_word
    simp only [hm, pending_dollar, List.length_singleton] at this
    split <;> omega
  · have hsign := size_emit l [.lit '$'] pending_quoted
    have hin := size_inQuotes (l := l.emit [.lit '$'] .quoted) rfl c
    simp only [hm, pending_quotedDollar, List.length_singleton] at hsign
    split <;> omega
  · omega

theorem size_run (l : Lex) (s : Str) : (l.run s).size ≤ l.size + (s.map weight).sum := by
  induction s generalizing l with
  | nil => simp
  | cons c s ih =>
    have h1 := size_step l c
    have h2 := ih (l.step c)
    rw [run_cons, List.map_cons, List.sum_cons]
    omega

theorem weight_le (s : Str) : (s.map weight).sum ≤ s.length := by
  induction s with
  | nil => simp
  | cons c s ih =>
    have : weight c ≤ 1 := by unfold weight; split <;> omega
    simp only [List.map_cons, List.sum_cons, List.length_cons]; omega

/-- Only a text without double quotes has its full weight. -/
theorem weight_full {s : Str} (h : s.length ≤ (s.map weight).sum) : '"' ∉ s := by
  induction s with
  | nil => simp
  | cons c s ih =>
    have h1 := weight_le s
    simp only [List.map_cons, List.sum_cons, List.length_cons] at h
    have hc : c ≠ '"' := by rintro rfl; simp [weight] at h; omega
    have h2 : weight c = 1 := by simp [weight, hc]
    simp only [List.mem_cons, not_or]
    exact ⟨hc.symm, ih (by omega)⟩

theorem run_other {l : Lex} (hm : l.mode = .other) (s : Str) : (l.run s).mode = .other := by
  induction s generalizing l with
  | nil => exact hm
  | cons c s ih => exact ih (by simp [step, hm])

theorem step_backslash {l : Lex} (hm : l.mode = .quoted) : l.step '\\' = { l with mode := .escaped } := by
  simp [step, inQuotes, hm]

/-- A backslash in front of `d` keeps both, or costs one of them. -/
theorem step_backslash_step {l : Lex} (hm : l.mode = .quoted) (d : Char) :
    ((escapable d = false ∧ d ≠ '\n') ∧
      (l.step '\\').step d = (l.emit [.lit '\\'] .quoted).step d) ∨
    ((l.step '\\').step d).size ≤ l.size + 1 := by
  have h1 := size_setMode l .escaped
  have h2 := size_emit { l with mode := Mode.escaped } [.lit d] pending_quoted
  have h3 := size_setMode { l with mode := Mode.escaped } .quoted
  simp only [hm, pending_quoted, pending_escaped, List.length_singleton] at h1 h2 h3
  rw [step_backslash hm]
  by_cases hd : escapable d = true
  · right; simp only [step, hd, ↓reduceIte]; omega
  · rw [Bool.not_eq_true] at hd
    by_cases hn : d = '\n'
    · right; subst hn; simp only [step, hd, Bool.false_eq_true, ↓reduceIte]; omega
    · left
      refine ⟨⟨hd, hn⟩, ?_⟩
      rw [step_quoted (l := l.emit [.lit '\\'] .quoted) rfl hd]
      simp [step, hd, hn, emit]

/-- A text without double quotes that lost nothing inside the quotes is plain, or ends in a
backslash that still waits. -/
theorem plain_of_size {p : Str} (hq : '"' ∉ p) {l : Lex} (hm : l.mode = .quoted)
    (hs : l.size + p.length ≤ (l.run p).size) (ho : (l.run p).mode ≠ .other) :
    Plain p ∨ (l.run p).mode = .escaped := by
  match p with
  | [] => exact Or.inl .nil
  | c :: t =>
    simp only [List.mem_cons, not_or] at hq
    by_cases hb : c = '\\'
    · subst hb
      match t with
      | [] => right; rw [run_cons, run_nil, step_backslash hm]
      | d :: u =>
        rcases step_backslash_step hm d with ⟨⟨hd, hn⟩, he⟩ | hlost
        · have h1 := size_emit l [.lit '\\'] pending_quoted
          simp only [hm, pending_quoted, List.length_singleton] at h1
          simp only [run_cons, he, List.length_cons] at hs ho ⊢
          exact (plain_of_size (p := d :: u) hq.2 (l := l.emit [.lit '\\'] .quoted) rfl
            (by simp only [run_cons, List.length_cons]; omega) ho).imp_left (.backslash hd hn)
        · have h2 := size_run ((l.step '\\').step d) u
          have h3 := weight_le u
          simp only [run_cons, List.length_cons] at hs
          omega
    · by_cases hd : c = '$'
      · subst hd
        match t with
        | [] => exact Or.inl (.dollar (by simp) .nil)
        | d :: u =>
          by_cases he : expands d = true
          · have hfail : (l.step '$').step d = (l.step '$').fail := by simp [step, inQuotes, hm, he]
            rw [run_cons, run_cons, hfail] at ho
            exact absurd (run_other rfl u) ho
          · rw [Bool.not_eq_true] at he
            have h1 := size_emit l [.lit '$'] pending_quoted
            simp only [hm, pending_quoted, List.length_singleton] at h1
            simp only [run_cons, step_dollar hm he, List.length_cons] at hs ho ⊢
            exact (plain_of_size (p := d :: u) hq.2 (l := l.emit [.lit '$'] .quoted) rfl
              (by simp only [run_cons, List.length_cons]; omega) ho).imp_left
                (.dollar fun c hc => by cases hc; exact he)
      by_cases hc : escapable c = true
      · -- a command substitution
        have he : l.step c = l.fail := by
          simp only [escapable, Bool.or_eq_true, beq_iff_eq] at hc
          have : c = backquote := by tauto
          subst this
          simp [step, inQuotes, hm, backquote]
        rw [run_cons, he] at ho
        exact absurd (run_other rfl t) ho
      · rw [Bool.not_eq_true] at hc
        have h1 := size_emit l [.lit c] pending_quoted
        simp only [hm, pending_quoted, List.length_singleton] at h1
        simp only [run_cons, step_quoted hm hc, List.length_cons] at hs ho ⊢
        exact (plain_of_size hq.2 (l := l.emit [.lit c] .quoted) rfl (by omega) ho).imp_left (.char hc)

/-! ## Rows of arguments -/

/-- Outside quotes, for good or until the next double quote. -/
def Outside (m : Mode) : Prop := m = .gap ∨ m = .word ∨ m = .dollar ∨ m = .other

theorem step_outside {l : Lex} (hm : Outside l.mode) {c : Char} (hc : c ≠ '"') : Outside (l.step c).mode := by
  have hend : ∀ k : Lex, Outside k.endCmd.mode := by
    intro k; unfold endCmd Outside; split <;> simp [fail]
  have hunq : Outside (l.unquoted c).mode := by
    unfold unquoted Outside; simp only [hc, ↓reduceIte]; repeat' split
    all_goals simp [emit, fail]
  rcases hm with hm | hm | hm | hm <;> simp only [step, hm] <;> repeat' split
  all_goals first | exact hend _ | exact hunq | simp [Outside, hm, endWord, emit, fail]

theorem run_outside {l : Lex} (hm : Outside l.mode) {s : Str} (hs : '"' ∉ s) : Outside (l.run s).mode := by
  induction s generalizing l with
  | nil => exact hm
  | cons c s ih =>
    simp only [List.mem_cons, not_or] at hs
    exact ih (step_outside hm (Ne.symm hs.1)) hs.2

/-- Inside quotes, or past reading. -/
def Inside (m : Mode) : Prop := m = .quoted ∨ m = .other

theorem step_quote_outside {l : Lex} (hm : Outside l.mode) : Inside (l.step '"').mode := by
  rcases hm with hm | hm | hm | hm <;> simp [step, hm, Inside, isBlank, unquoted, fail]

theorem step_quote_inside {l : Lex} (hm : Inside l.mode) : Outside (l.step '"').mode := by
  rcases hm with hm | hm <;> simp [step, inQuotes, hm, Outside]

theorem step_space_inside {l : Lex} (hm : Inside l.mode) : Inside (l.step ' ').mode := by
  rcases hm with hm | hm <;> simp [step, inQuotes, hm, Inside, emit, backquote]

/-- Arguments whose quotes are taken the wrong way round end inside quotes. -/
theorem run_args_inside {ps : List Str} (hne : ps ≠ []) (hq : ∀ p ∈ ps, '"' ∉ p) {l : Lex}
    (hm : Inside l.mode) : Inside (l.run (args ps)).mode := by
  induction ps generalizing l with
  | nil => exact absurd rfl hne
  | cons p ps ih =>
    have h1 := step_quote_outside (run_outside (step_quote_inside hm) (hq p List.mem_cons_self))
    cases ps with
    | nil => simpa [args, quote] using h1
    | cons q qs =>
      have h2 := ih (List.cons_ne_nil q qs) (fun r hr => hq r (List.mem_cons_of_mem p hr)) (step_space_inside h1)
      simpa [args, quote] using h2

theorem weight_args {ps : List Str} (hne : ps ≠ []) :
    ((args ps).map weight).sum + 1 = (ps.map fun p => (p.map weight).sum + 1).sum := by
  induction ps with
  | nil => exact absurd rfl hne
  | cons p ps ih =>
    cases ps with
    | nil => simp [args, quote, weight]
    | cons q qs =>
      have h := ih (List.cons_ne_nil q qs)
      simp only [args, quote, List.cons_append, List.map_cons, List.map_append, List.sum_cons, List.sum_append,
        List.map_nil, List.sum_nil, weight] at h ⊢
      simp only [Char.reduceEq, ↓reduceIte] at h ⊢
      omega

theorem weights_le (ps : List Str) :
    (ps.map fun p => (p.map weight).sum + 1).sum ≤ (ps.map fun p => p.length + 1).sum := by
  induction ps with
  | nil => simp
  | cons p ps ih => have := weight_le p; simp only [List.map_cons, List.sum_cons]; omega

theorem no_quote_of_weights {ps : List Str}
    (h : (ps.map fun p => p.length + 1).sum ≤ (ps.map fun p => (p.map weight).sum + 1).sum) :
    ∀ p ∈ ps, '"' ∉ p := by
  induction ps with
  | nil => simp
  | cons p ps ih =>
    have h1 := weight_le p
    have h2 := weights_le ps
    simp only [List.map_cons, List.sum_cons] at h
    intro q hq
    rcases List.mem_cons.1 hq with rfl | hq
    · exact weight_full (by omega)
    · exact ih (by omega) q hq

/-- The words at the end of the text are what was read. -/
theorem size_of_finish {l : Lex} {r : List (List Word)} (h : l.finish = some r) :
    (l.mode = .gap ∨ l.mode = .word) ∧ wordsSize r.flatten ≤ l.size + 1 := by
  unfold finish at h
  split at h
  · rename_i hm
    refine ⟨Or.inl hm, ?_⟩
    cases h
    split
    · simp only [size]; omega
    · simp only [List.flatten_append, List.flatten_singleton, wordsSize_append, size]; omega
  · rename_i hm
    cases h
    refine ⟨Or.inr hm, ?_⟩
    simp only [List.flatten_append, List.flatten_singleton, wordsSize_append, wordsSize_singleton, size]; omega
  · cases h

theorem not_inside_of_end {m : Mode} (h : m = .gap ∨ m = .word) : ¬ Inside m := by
  rcases h with rfl | rfl <;> simp [Inside]

/-- If a row of quoted arguments was read without a loss and ends outside quotes, they are plain. -/
theorem plain_of_args {ps : List Str} (hne : ps ≠ []) (hq : ∀ p ∈ ps, '"' ∉ p) {ws : List Word}
    {cs : List (List Word)}
    (hs : wordsSize cs.flatten + wordsSize ws + (ps.map fun p => p.length + 1).sum ≤
      ((Lex.mk .gap [] ws cs).run (args ps)).size + 1)
    (hend : ((Lex.mk .gap [] ws cs).run (args ps)).mode = .gap ∨
      ((Lex.mk .gap [] ws cs).run (args ps)).mode = .word) : ∀ p ∈ ps, Plain p := by
  induction ps generalizing ws with
  | nil => exact absurd rfl hne
  | cons p ps ih =>
    have hopen : (Lex.mk .gap [] ws cs).step '"' = ⟨.quoted, [], ws, cs⟩ := rfl
    have hsize : (Lex.mk .quoted [] ws cs).size = wordsSize cs.flatten + wordsSize ws := by simp [size]
    -- `k` is what was read up to the end of `p`
    have hk := plain_of_size (hq p List.mem_cons_self) (l := ⟨.quoted, [], ws, cs⟩) rfl
    have hplain := fun h : Plain p => run_plain h (l := ⟨.quoted, [], ws, cs⟩) rfl
    generalize hke : (Lex.mk .quoted [] ws cs).run p = k at hk hplain
    have hk1 := size_step k '"'
    have hquote : weight '"' = 0 := rfl
    have hesc : k.mode = .escaped → Inside (k.step '"').mode := fun h => by
      simp [step, h, escapable, emit, Inside]
    cases ps with
    | nil =>
      simp only [args, quote, List.cons_append, run_cons, hopen, run_append, hke, run_nil, List.map_cons,
        List.map_nil, List.sum_cons, List.sum_nil] at hs hend
      have ho : k.mode ≠ .other := fun h => not_inside_of_end hend (Or.inr (by simp [step, h]))
      rcases hk (by omega) ho with h | h
      · simpa using h
      · exact absurd (hesc h) (not_inside_of_end hend)
    | cons q qs =>
      have hqs : ∀ r ∈ q :: qs, '"' ∉ r := fun r hr => hq r (List.mem_cons_of_mem p hr)
      have hqne := List.cons_ne_nil q qs
      simp only [args, quote, List.cons_append, run_cons, hopen, run_append, hke, run_nil] at hs hend
      rw [List.map_cons, List.sum_cons] at hs
      have ho : k.mode ≠ .other := fun h =>
        not_inside_of_end hend (Or.inr (run_other (by simp [step, h]) _))
      have h2 := size_step (k.step '"') ' '
      have h3 := size_run ((k.step '"').step ' ') (args (q :: qs))
      have h4 := weight_args hqne
      have h5 := weights_le (q :: qs)
      have hspace : weight ' ' = 1 := rfl
      rcases hk (by omega) ho with h | h
      · have hgap : (k.step '"').step ' ' = ⟨.gap, [], ws ++ [lits p], cs⟩ := by rw [hplain h]; rfl
        rw [hgap] at hs hend
        have hrest := ih hqne hqs (by simp only [wordsSize_append, wordsSize_singleton, length_lits]; omega) hend
        intro r hr
        rcases List.mem_cons.1 hr with rfl | hr
        · exact h
        · exact hrest r hr
      · exact absurd (run_args_inside hqne hqs (step_space_inside (hesc h))) (not_inside_of_end hend)

/-- **A row of quoted arguments is read as the words between the quotes exactly when they are plain.** -/
theorem args_read_iff {ps : List Str} (hne : ps ≠ []) (ws : List Word) (cs : List (List Word)) :
    ((Lex.mk .gap [] ws cs).run (args ps)).finish = some (cs ++ [ws ++ ps.map lits]) ↔ ∀ p ∈ ps, Plain p := by
  constructor
  · intro h
    obtain ⟨hend, hsize⟩ := size_of_finish h
    have hle := size_run (Lex.mk .gap [] ws cs) (args ps)
    have hstart : (Lex.mk .gap [] ws cs).size = wordsSize cs.flatten + wordsSize ws := by simp [size]
    have hargs := weight_args hne
    have hwords : wordsSize (ps.map lits) = (ps.map fun p => p.length + 1).sum := by
      simp [wordsSize, Function.comp_def]
    rw [List.flatten_append, List.flatten_singleton, wordsSize_append, wordsSize_append, hwords] at hsize
    have hq : ∀ p ∈ ps, '"' ∉ p := no_quote_of_weights (by omega)
    have hs : wordsSize cs.flatten + wordsSize ws + (ps.map fun p => p.length + 1).sum ≤
        ((Lex.mk .gap [] ws cs).run (args ps)).size + 1 := by omega
    exact plain_of_args hne hq hs hend
  · intro h
    have hlast := congrArg (List.map lits) (List.dropLast_append_getLast hne)
    rw [List.map_append, List.map_singleton] at hlast
    rw [run_args hne h, ← hlast, ← List.append_assoc]
    rfl

/-! ## What follows the arguments -/

/-- Without a double quote in sight, reading stays inside. -/
theorem finish_inside {l : Lex} (hm : l.mode ≠ .gap ∧ l.mode ≠ .word ∧ l.mode ≠ .dollar) {s : Str} (hs : '"' ∉ s) :
    (l.run s).finish = none := by
  induction s generalizing l with
  | nil => simp [finish, hm]
  | cons c s ih =>
    simp only [List.mem_cons, not_or] at hs
    refine ih ?_ hs.2
    have hin : ∀ k : Lex, (k.inQuotes c).mode ≠ .gap ∧ (k.inQuotes c).mode ≠ .word ∧ (k.inQuotes c).mode ≠ .dollar := by
      intro k
      simp only [inQuotes, Ne.symm hs.1, ↓reduceIte]
      repeat' split
      all_goals simp [emit, fail]
    cases h : l.mode with
    | gap => exact absurd h hm.1
    | word => exact absurd h hm.2.1
    | dollar => exact absurd h hm.2.2
    | _ =>
      simp only [step, h]
      repeat' split
      all_goals first | exact hin _ | simp [emit, fail]

/-- After `;` only a complete command counts, and the rest is read as if it stood alone. -/
theorem finish_semicolon {l : Lex} {t : Str} (ht : '"' ∉ t) {r : List (List Word)} :
    (l.run (';' :: t)).finish = some r →
      ∃ r₀ r₁, l.finish = some r₀ ∧ parse t = some r₁ ∧ r = r₀ ++ r₁ := by
  have hq : '"' ∉ ';' :: t := by simp [ht]
  intro h
  obtain ⟨m, w, ws, cs⟩ := l
  cases m with
  | gap =>
    by_cases hw : ws = []
    · rw [run_cons, finish_inside (by simp [step, isBlank, endCmd, hw, fail]) ht] at h
      cases h
    · have hstep : (Lex.mk .gap w ws cs).step ';' = ⟨.gap, [], [], cs ++ [ws]⟩ := by
        simp [step, isBlank, endCmd, hw]
      rw [run_cons, hstep, finish_run_gap] at h
      obtain ⟨r₁, h1, rfl⟩ := Option.map_eq_some_iff.1 h
      exact ⟨cs ++ [ws], r₁, by simp [finish, hw], h1, rfl⟩
  | word =>
    have hstep : (Lex.mk .word w ws cs).step ';' = ⟨.gap, [], [], cs ++ [ws ++ [w]]⟩ := by
      simp [step, isBlank, endCmd, endWord]
    rw [run_cons, hstep, finish_run_gap] at h
    obtain ⟨r₁, h1, rfl⟩ := Option.map_eq_some_iff.1 h
    exact ⟨cs ++ [ws ++ [w]], r₁, rfl, h1, rfl⟩
  | dollar => rw [run_cons, finish_inside (by simp [step, fail]) ht] at h; cases h
  | quoted | escaped | quotedDollar | other => rw [finish_inside (by simp) hq] at h; cases h

theorem finish_word_semicolon {l : Lex} (hm : l.mode = .word) {t : Str} {r₀ r₁ : List (List Word)}
    (h₀ : l.finish = some r₀) (h₁ : parse t = some r₁) : (l.run (';' :: t)).finish = some (r₀ ++ r₁) := by
  obtain ⟨m, w, ws, cs⟩ := l
  cases hm
  cases h₀
  have hstep : (Lex.mk .word w ws cs).step ';' = ⟨.gap, [], [], cs ++ [ws ++ [w]]⟩ := by
    simp [step, isBlank, endCmd, endWord]
  rw [run_cons, hstep, finish_run_gap, h₁]
  rfl

/-! ## A line with one row of arguments -/

theorem run_spaced {front : List Str} (h : ∀ w ∈ front, w ≠ [] ∧ ∀ c ∈ w, ordinary c = true) (ws : List Word)
    (cs : List (List Word)) :
    (Lex.mk .gap [] ws cs).run (spaced front) = ⟨.gap, [], ws ++ front.map lits, cs⟩ := by
  induction front generalizing ws with
  | nil => simp [spaced]
  | cons w front ih =>
    obtain ⟨hne, hord⟩ := h w List.mem_cons_self
    have hword : (Lex.mk .gap [] ws cs).run w = ⟨.word, lits w, ws, cs⟩ := by
      rw [run_ordinary hord hne (Or.inl rfl)]; simp [emit]
    have hblank : (Lex.mk .word (lits w) ws cs).step ' ' = ⟨.gap, [], ws ++ [lits w], cs⟩ := rfl
    rw [spaced_cons, run_append, hword, run_cons, hblank, ih fun v hv => h v (List.mem_cons_of_mem w hv)]
    simp

/-- `ws` begins the first command. -/
def Begins (ws : List Word) (l : Lex) : Prop :=
  (l.cmds = [] ∧ ws <+: l.words) ∨ ∃ cmd cmds, l.cmds = cmd :: cmds ∧ ws <+: cmd

theorem begins_of_keeps {ws : List Word} {l k : Lex} (h : Begins ws l) (hcmds : k.cmds = l.cmds)
    (hwords : l.words <+: k.words) : Begins ws k := by
  rcases h with ⟨hnil, hws⟩ | ⟨cmd, cmds, hcons, hws⟩
  · exact Or.inl ⟨hcmds.trans hnil, hws.trans hwords⟩
  · exact Or.inr ⟨cmd, cmds, hcmds.trans hcons, hws⟩

theorem endWord_begins {ws : List Word} {l : Lex} (h : Begins ws l) : Begins ws l.endWord :=
  begins_of_keeps h rfl (List.prefix_append _ _)

theorem endCmd_begins {ws : List Word} {l : Lex} (h : Begins ws l) : Begins ws l.endCmd := by
  unfold endCmd
  split
  · exact begins_of_keeps h rfl (List.prefix_refl _)
  · rcases h with ⟨hnil, hws⟩ | ⟨cmd, cmds, hcons, hws⟩
    · exact Or.inr ⟨l.words, [], by rw [hnil, List.nil_append], hws⟩
    · exact Or.inr ⟨cmd, cmds ++ [l.words], by rw [hcons, List.cons_append], hws⟩

theorem unquoted_keeps (l : Lex) (c : Char) : (l.unquoted c).cmds = l.cmds ∧ (l.unquoted c).words = l.words := by
  unfold unquoted
  repeat' split
  all_goals exact ⟨rfl, rfl⟩

theorem inQuotes_keeps (l : Lex) (c : Char) : (l.inQuotes c).cmds = l.cmds ∧ (l.inQuotes c).words = l.words := by
  unfold inQuotes
  repeat' split
  all_goals exact ⟨rfl, rfl⟩

theorem step_begins {ws : List Word} {l : Lex} (h : Begins ws l) (c : Char) : Begins ws (l.step c) := by
  have hkeeps : ∀ {k : Lex}, k.cmds = l.cmds ∧ k.words = l.words → Begins ws k := fun hk =>
    begins_of_keeps h hk.1 (hk.2 ▸ List.prefix_refl _)
  unfold step
  split
  case h_1 =>
    split
    · exact h
    · split
      · exact endCmd_begins h
      · exact hkeeps (unquoted_keeps l c)
  case h_2 =>
    split
    · exact endWord_begins h
    · split
      · exact endCmd_begins (endWord_begins h)
      · exact hkeeps (unquoted_keeps l c)
  case h_3 => exact hkeeps (inQuotes_keeps l c)
  case h_4 =>
    repeat' split
    all_goals exact hkeeps ⟨rfl, rfl⟩
  case h_5 =>
    split
    all_goals exact hkeeps ⟨rfl, rfl⟩
  case h_6 =>
    split
    · exact hkeeps ⟨rfl, rfl⟩
    · exact hkeeps (inQuotes_keeps _ c)
  case h_7 => exact h

theorem run_begins {ws : List Word} {l : Lex} (h : Begins ws l) (s : Str) : Begins ws (l.run s) := by
  induction s generalizing l with
  | nil => exact h
  | cons c s ih => exact ih (step_begins h c)

/-- Ordinary words at the front of a line are the first words of its first command. -/
theorem prefix_of_parse {front : List Str} (hne : front ≠ [])
    (hfront : ∀ w ∈ front, w ≠ [] ∧ ∀ c ∈ w, ordinary c = true)
    {s : Str} {r : List (List Word)} (h : parse (spaced front ++ s) = some r) :
    ∃ cmd cmds, r = cmd :: cmds ∧ front.map lits <+: cmd := by
  have hbegins : Begins (front.map lits) ((Lex.mk .gap [] (front.map lits) []).run s) :=
    run_begins (Or.inl ⟨rfl, List.prefix_refl _⟩) s
  rw [parse, run_append, start, run_spaced hfront, List.nil_append] at h
  generalize (Lex.mk .gap [] (front.map lits) []).run s = k at h hbegins
  have hwords : front.map lits ≠ [] := by simpa using hne
  unfold finish at h
  split at h
  · cases h
    rcases hbegins with ⟨hnil, hws⟩ | ⟨cmd, cmds, hcons, hws⟩
    · have hk : k.words ≠ [] := fun hk => hwords (List.prefix_nil.1 (hk ▸ hws))
      exact ⟨k.words, [], by rw [if_neg hk, hnil, List.nil_append], hws⟩
    · rw [hcons]
      split
      · exact ⟨cmd, cmds, rfl, hws⟩
      · exact ⟨cmd, cmds ++ [k.words], rfl, hws⟩
  · cases h
    rcases hbegins with ⟨hnil, hws⟩ | ⟨cmd, cmds, hcons, hws⟩
    · exact ⟨k.words ++ [k.word], [], by rw [hnil, List.nil_append], hws.trans (List.prefix_append _ _)⟩
    · exact ⟨cmd, cmds ++ [k.words ++ [k.word]], by rw [hcons, List.cons_append], hws⟩
  · cases h

/-- The end of a line, behind its arguments: nothing, or more commands without a double quote. -/
inductive Rest : Str → List (List Word) → Prop
  | none : Rest [] []
  | more {t : Str} {r : List (List Word)} : '"' ∉ t → parse t = some r → Rest (';' :: t) r

/-- **A line of ordinary words, quoted arguments and possibly more commands is read as that exactly
when the arguments are plain.** -/
theorem line_read_iff {pre : Str} {cs : List (List Word)} (hpre : start.run pre = ⟨.gap, [], [], cs⟩)
    {front ps : List Str} (hfront : ∀ w ∈ front, w ≠ [] ∧ ∀ c ∈ w, ordinary c = true) (hne : ps ≠ [])
    {rest : Str} {r : List (List Word)} (hrest : Rest rest r) :
    parse (pre ++ (spaced front ++ (args ps ++ rest))) = some (cs ++ ([front.map lits ++ ps.map lits] ++ r)) ↔
      ∀ p ∈ ps, Plain p := by
  have hrun : parse (pre ++ (spaced front ++ (args ps ++ rest))) =
      (((Lex.mk .gap [] (front.map lits) cs).run (args ps)).run rest).finish := by
    unfold parse
    rw [run_append, hpre, run_append, run_spaced hfront, run_append, List.nil_append]
  rw [hrun, ← args_read_iff hne (front.map lits) cs, ← List.append_assoc]
  cases hrest with
  | none => simp
  | @more t _ hq ht =>
    constructor
    · intro h
      obtain ⟨r₀, r₁, h0, h1, he⟩ := finish_semicolon hq h
      rw [ht] at h1
      cases h1
      rw [h0, List.append_cancel_right he]
    · intro h
      refine finish_word_semicolon ?_ h ht
      have hplain := (args_read_iff hne (front.map lits) cs).1 h
      rw [run_args hne hplain]

end Lex

end Sh
