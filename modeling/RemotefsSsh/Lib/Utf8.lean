import Mathlib.Data.List.DropRight

/-!
# UTF-8 text addressed by byte offsets

A text is the list of its Unicode scalar values; an offset counts the bytes its UTF-8 encoding
takes. Slicing at an offset that is out of range or inside a character has no result (`none`): it
is where a checked slice aborts.

The main facts: a slice succeeds exactly at the seams of the text (`sliceTo_eq_some`,
`sliceFrom_eq_some`), and `rfind` returns the seam in front of the last occurrence
(`rfind_append_cons`).
-/

namespace Utf8

/-- A text, as its scalar values in order. -/
abbrev Str := List Char

/-- Bytes of the UTF-8 encoding. -/
def byteLen : Str → Nat
  | [] => 0
  | c :: cs => c.utf8Size + byteLen cs

@[simp] theorem byteLen_nil : byteLen [] = 0 := rfl

@[simp] theorem byteLen_cons (c : Char) (cs : Str) : byteLen (c :: cs) = c.utf8Size + byteLen cs := rfl

@[simp] theorem byteLen_append (a b : Str) : byteLen (a ++ b) = byteLen a + byteLen b := by
  induction a with
  | nil => simp
  | cons c cs ih => simp [ih, Nat.add_assoc]

theorem byteLen_eq_zero {s : Str} : byteLen s = 0 ↔ s = [] := by
  cases s with
  | nil => simp
  | cons c cs => have := c.utf8Size_pos; simp; omega

/-! ## Slices -/

/-- The two sides of the seam at byte `n`, if there is one. -/
def cutAt : Str → Nat → Option (Str × Str)
  | s, 0 => some ([], s)
  | [], _ + 1 => none
  | c :: cs, n + 1 =>
    if c.utf8Size ≤ n + 1 then (cutAt cs (n + 1 - c.utf8Size)).map fun p => (c :: p.1, p.2) else none

/-- `s[..n]`. -/
def sliceTo (s : Str) (n : Nat) : Option Str := (cutAt s n).map (·.1)

/-- `s[n..]`. -/
def sliceFrom (s : Str) (n : Nat) : Option Str := (cutAt s n).map (·.2)

theorem cutAt_append (a b : Str) : cutAt (a ++ b) (byteLen a) = some (a, b) := by
  induction a with
  | nil => cases b <;> rfl
  | cons c cs ih =>
    obtain ⟨m, hm⟩ : ∃ m, c.utf8Size + byteLen cs = m + 1 :=
      ⟨c.utf8Size + byteLen cs - 1, by have := c.utf8Size_pos; omega⟩
    simp only [List.cons_append, byteLen_cons, hm, cutAt]
    rw [if_pos (by omega), ← hm, Nat.add_sub_cancel_left, ih]
    rfl

theorem cutAt_sound {s : Str} {n : Nat} {a b : Str} (h : cutAt s n = some (a, b)) :
    s = a ++ b ∧ byteLen a = n := by
  induction s generalizing n a b with
  | nil =>
    cases n with
    | zero => cases h; exact ⟨rfl, rfl⟩
    | succ n => cases h
  | cons c cs ih =>
    cases n with
    | zero => cases h; exact ⟨rfl, rfl⟩
    | succ n =>
      simp only [cutAt] at h
      split at h
      · obtain ⟨⟨a', b'⟩, hcut, he⟩ := Option.map_eq_some_iff.1 h
        cases he
        obtain ⟨rfl, hn⟩ := ih hcut
        exact ⟨rfl, by simp [hn]; omega⟩
      · cases h

theorem cutAt_eq_some {s a b : Str} {n : Nat} :
    cutAt s n = some (a, b) ↔ s = a ++ b ∧ byteLen a = n := by
  constructor
  · exact cutAt_sound
  · rintro ⟨rfl, rfl⟩; exact cutAt_append a b

theorem sliceTo_eq_some {s a : Str} {n : Nat} :
    sliceTo s n = some a ↔ ∃ b, s = a ++ b ∧ byteLen a = n := by
  simp [sliceTo, cutAt_eq_some]

theorem sliceFrom_eq_some {s b : Str} {n : Nat} :
    sliceFrom s n = some b ↔ ∃ a, s = a ++ b ∧ byteLen a = n := by
  simp [sliceFrom, cutAt_eq_some]

/-! ## Searching -/

/-- Byte offset of the last occurrence of `c` (`str::rfind`). -/
def rfind : Str → Char → Option Nat
  | [], _ => none
  | d :: ds, c =>
    match rfind ds c with
    | some i => some (d.utf8Size + i)
    | none => if d = c then some 0 else none

theorem rfind_eq_none {s : Str} {c : Char} : rfind s c = none ↔ c ∉ s := by
  induction s with
  | nil => simp [rfind]
  | cons d ds ih =>
    simp only [rfind]
    split
    · rename_i i hi
      simp only [reduceCtorEq, false_iff, Decidable.not_not, List.mem_cons]
      exact Or.inr (by by_contra hc; rw [ih.2 hc] at hi; cases hi)
    · rename_i hn
      have hc := ih.1 hn
      by_cases hd : d = c
      · simp [hd]
      · simp [hd, hc, Ne.symm hd]

theorem rfind_append_cons {a b : Str} {c : Char} (hb : c ∉ b) :
    rfind (a ++ c :: b) c = some (byteLen a) := by
  induction a with
  | nil => simp [rfind, rfind_eq_none.2 hb]
  | cons d ds ih => simp [rfind, ih]

/-- A text with a `c` in it splits at its last one. -/
theorem exists_last {s : Str} {c : Char} (h : c ∈ s) : ∃ a b, s = a ++ c :: b ∧ c ∉ b := by
  induction s with
  | nil => simp at h
  | cons d ds ih =>
    by_cases hd : c ∈ ds
    · obtain ⟨a, b, rfl, hb⟩ := ih hd
      exact ⟨d :: a, b, rfl, hb⟩
    · rcases List.mem_cons.1 h with rfl | h'
      · exact ⟨[], ds, rfl, hd⟩
      · exact absurd h' hd

end Utf8
