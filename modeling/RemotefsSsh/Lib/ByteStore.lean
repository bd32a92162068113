import Mathlib.Data.List.Infix
import Mathlib.Logic.Function.Basic

/-!
# Stores of byte sequences that operations may leave half done

A store holds a sequence under each key. An operation that is acknowledged has its whole `effect`; one that
is not has done nothing, or written a beginning of what it was to write (`Torn`). A read that is acknowledged
hands the sequence out, as far as its length stays below `limit`.

Along a run of such steps a sequence that is only appended to keeps its beginning, whatever fails
(`Run.grows`), and is exactly what was appended when every append was acknowledged (`Run.appended`). So what was
acknowledged is read again (`Run.durable`).
-/

namespace ByteStore

variable {ι β : Type}

abbrev Store (ι β : Type) := ι → Option (List β)

inductive Op (ι β : Type) where
  | create (i : ι) (c : List β)
  | append (i : ι) (c : List β)
  | read (i : ι)
  | remove (i : ι)
  | rename (i j : ι)
deriving DecidableEq

/-- What the caller of an operation is told and handed. -/
structure Ack (β : Type) where
  count : Nat
  bytes : List β
deriving DecidableEq

structure Event (ι β : Type) where
  op : Op ι β
  /-- None when it was not acknowledged. -/
  reply : Option (Ack β)
deriving DecidableEq

/-- The sequence under a key, empty when there is none. -/
def Store.content (s : Store ι β) (i : ι) : List β := (s i).getD []

/-- The operation does not make, take away or replace what is under `i`; it may append to it. -/
def Op.Spares (i : ι) : Op ι β → Prop
  | create j _ => j ≠ i
  | append _ _ => True
  | read _ => True
  | remove j => j ≠ i
  | rename j k => j ≠ i ∧ k ≠ i

section
variable [DecidableEq ι]

def Store.put (s : Store ι β) (i : ι) (c : List β) : Store ι β := Function.update s i (some c)

namespace Op

def effect : Op ι β → Store ι β → Store ι β
  | create i c, s => s.put i c
  | append i c, s => s.put i (s.content i ++ c)
  | read _, s => s
  | remove i, s => Function.update s i none
  | rename i j, s => if i = j then s else Function.update (Function.update s j (s i)) i none

/-- What an operation that is not acknowledged may leave behind. -/
inductive Torn : Op ι β → Store ι β → Store ι β → Prop
  | nothing (op : Op ι β) (s : Store ι β) : Torn op s s
  | create {i : ι} {c p : List β} {s : Store ι β} : p <+: c → Torn (.create i c) s (s.put i p)
  | append {i : ι} {c p : List β} {s : Store ι β} : p <+: c → Torn (.append i c) s (s.put i (s.content i ++ p))

/-- The reply of an operation that is acknowledged. -/
def Answers (limit : Nat) (s : Store ι β) (a : Ack β) : Op ι β → Prop
  | create _ c => a = ⟨c.length, []⟩
  | append _ c => a = ⟨c.length, []⟩
  | read i => ∃ c, s i = some c ∧ a.bytes <+: c ∧ (c.length < limit → a = ⟨c.length, c⟩)
  | remove _ => a = ⟨0, []⟩
  | rename _ _ => a = ⟨0, []⟩

end Op

/-- One operation, acknowledged or not. -/
inductive Step (limit : Nat) (s : Store ι β) : Event ι β → Store ι β → Prop
  | acked {op : Op ι β} {a : Ack β} : op.Answers limit s a → Step limit s ⟨op, some a⟩ (op.effect s)
  | torn {op : Op ι β} {s' : Store ι β} : op.Torn s s' → Step limit s ⟨op, none⟩ s'

def Run (limit : Nat) : Store ι β → List (Event ι β) → Store ι β → Prop
  | s, [], s' => s' = s
  | s, e :: es, s' => ∃ s₁, Step limit s e s₁ ∧ Run limit s₁ es s'

/-- What was to be appended to `i`. -/
def appended (i : ι) (es : List (Event ι β)) : List β :=
  es.flatMap fun e =>
    match e.op with
    | .append j c => if j = i then c else []
    | _ => []

@[simp] theorem put_same (s : Store ι β) (i : ι) (c : List β) : s.put i c i = some c := by simp [Store.put]

theorem put_ne (s : Store ι β) {i j : ι} (h : i ≠ j) (c : List β) : s.put j c i = s i := by
  rw [Store.put, Function.update_of_ne h]

@[simp] theorem put_put (s : Store ι β) (i : ι) (c d : List β) : (s.put i c).put i d = s.put i d := by
  simp [Store.put]

section
variable {limit : Nat} {s s' : Store ι β} {i : ι} {x : List β}

theorem appended_cons (i : ι) (e : Event ι β) (es : List (Event ι β)) :
    appended i (e :: es) = appended i [e] ++ appended i es := by
  simp [appended]

omit [DecidableEq ι] in
theorem content_of_eq (h : s i = some x) : s.content i = x := by rw [Store.content, h, Option.getD_some]

theorem Run.split {es es' : List (Event ι β)} (h : Run limit s (es ++ es') s') :
    ∃ s₁, Run limit s es s₁ ∧ Run limit s₁ es' s' := by
  induction es generalizing s with
  | nil => exact ⟨s, rfl, h⟩
  | cons e es ih =>
    obtain ⟨s₁, hstep, hrest⟩ := h
    obtain ⟨s₂, h₁, h₂⟩ := ih hrest
    exact ⟨s₂, ⟨s₁, hstep, h₁⟩, h₂⟩

/-- A step that spares `i` leaves it there, with something behind it if the step was to append to it. -/
theorem Step.grows {e : Event ι β} (h : Step limit s e s') (hi : s i = some x) (hspare : e.op.Spares i) :
    ∃ p, s' i = some (x ++ p) ∧ p <+: appended i [e] ∧ (e.reply ≠ none → p = appended i [e]) := by
  -- an append at another key does not show at `i`, one at `i` adds `p`
  have happend : ∀ (j : ι) (c p : List β), p <+: c → ∃ q, s.put j (s.content j ++ p) i = some (x ++ q) ∧
      q <+: (if j = i then c else []) ∧ (p = c → q = if j = i then c else []) := by
    intro j c p hp
    by_cases hj : j = i
    · subst hj
      refine ⟨p, ?_, ?_, ?_⟩
      · rw [put_same, content_of_eq hi]
      · rwa [if_pos rfl]
      · intro hpc
        rwa [if_pos rfl]
    · refine ⟨[], ?_, ?_, ?_⟩
      · rw [put_ne s (Ne.symm hj), hi, List.append_nil]
      · exact List.nil_prefix
      · intro _
        rw [if_neg hj]
  have hkept : s i = some (x ++ []) := by rw [hi, List.append_nil]
  cases h with
  | @acked op a _ =>
    cases op with
    | create j c => exact ⟨[], by rw [Op.effect, put_ne s (Ne.symm hspare), hkept], List.nil_prefix, fun _ => rfl⟩
    | append j c =>
      obtain ⟨q, hq, hpre, hall⟩ := happend j c c (List.prefix_refl c)
      refine ⟨q, hq, ?_, fun _ => ?_⟩
      · simpa [appended] using hpre
      · simpa [appended] using hall rfl
    | read j => exact ⟨[], hkept, List.nil_prefix, fun _ => rfl⟩
    | remove j =>
      exact ⟨[], by rw [Op.effect, Function.update_of_ne (Ne.symm hspare), hkept], List.nil_prefix, fun _ => rfl⟩
    | rename j k =>
      refine ⟨[], ?_, List.nil_prefix, fun _ => rfl⟩
      rw [Op.effect]
      split
      · exact hkept
      · rw [Function.update_of_ne (Ne.symm hspare.1), Function.update_of_ne (Ne.symm hspare.2), hkept]
  | @torn op _ htorn =>
    cases htorn with
    | nothing => exact ⟨[], hkept, List.nil_prefix, fun h => absurd rfl h⟩
    | create _ => exact ⟨[], by rw [put_ne s (Ne.symm hspare), hkept], List.nil_prefix, fun h => absurd rfl h⟩
    | @append j c p _ hp =>
      obtain ⟨q, hq, hpre, -⟩ := happend j c p hp
      refine ⟨q, hq, ?_, fun h => absurd rfl h⟩
      simpa [appended] using hpre

/-- **A sequence that is only appended to keeps its beginning**, also where operations fail. -/
theorem Run.grows {es : List (Event ι β)} (h : Run limit s es s') (hi : s i = some x)
    (hspare : ∀ e ∈ es, e.op.Spares i) : ∃ p, s' i = some (x ++ p) := by
  induction es generalizing s x with
  | nil => exact ⟨[], by rw [List.append_nil, ← hi, show s' = s from h]⟩
  | cons e es ih =>
    obtain ⟨s₁, hstep, hrest⟩ := h
    obtain ⟨p, hp, -, -⟩ := hstep.grows hi (hspare e List.mem_cons_self)
    obtain ⟨q, hq⟩ := ih hrest hp fun e' he' => hspare e' (List.mem_cons_of_mem e he')
    exact ⟨p ++ q, by rw [hq, List.append_assoc]⟩

/-- When every append was acknowledged, it is what was appended. -/
theorem Run.appended {es : List (Event ι β)} (h : Run limit s es s') (hi : s i = some x)
    (hspare : ∀ e ∈ es, e.op.Spares i) (hack : ∀ e ∈ es, ∀ c, e.op = .append i c → e.reply ≠ none) :
    s' i = some (x ++ ByteStore.appended i es) := by
  induction es generalizing s x with
  | nil =>
    rw [show s' = s from h, hi]
    exact congrArg some (List.append_nil x).symm
  | cons e es ih =>
    obtain ⟨s₁, hstep, hrest⟩ := h
    obtain ⟨p, hp, hpre, hall⟩ := hstep.grows hi (hspare e List.mem_cons_self)
    have hp' : p = ByteStore.appended i [e] := by
      by_cases happ : ∃ c, e.op = .append i c
      · obtain ⟨c, hc⟩ := happ
        exact hall (hack e List.mem_cons_self c hc)
      · -- nothing was to be appended to `i`
        have hnil : ByteStore.appended i [e] = [] := by
          obtain ⟨op, r⟩ := e
          cases op with
          | append j c =>
            by_cases hj : j = i
            · subst hj
              exact absurd ⟨c, rfl⟩ happ
            · simp [ByteStore.appended, hj]
          | _ => rfl
        rw [hnil] at hpre ⊢
        exact List.prefix_nil.1 hpre
    have h := ih hrest hp (fun e' he' => hspare e' (List.mem_cons_of_mem e he'))
      fun e' he' => hack e' (List.mem_cons_of_mem e he')
    rw [h, List.append_assoc, hp', ← appended_cons]

/-- What an acknowledged create or append leaves under its key. -/
theorem Step.put {e : Event ι β} {c : List β} (h : Step limit s e s') (hput : e.op = .create i c ∨ e.op = .append i c)
    (hack : e.reply ≠ none) : ∃ old, s' i = some (old ++ c) ∧ (e.op = .create i c → old = []) := by
  cases h with
  | torn _ => exact absurd rfl hack
  | acked _ =>
    rcases hput with hput | hput
    · obtain rfl : _ = Op.create i c := hput
      exact ⟨[], put_same s i c, fun _ => rfl⟩
    · obtain rfl : _ = Op.append i c := hput
      exact ⟨s.content i, put_same s i _, fun h => by cases h⟩

/-- **What was acknowledged is read again**: between an acknowledged create or append under `i` and an acknowledged
read nothing else is made there, taken away or replaced; then the read hands out what was put, with what was
appended since behind it. -/
theorem Run.durable {es₁ es₂ es₃ : List (Event ι β)} {put got : Event ι β} {c : List β} {a : Ack β}
    (h : Run limit s (es₁ ++ put :: (es₂ ++ got :: es₃)) s') (hput : put.op = .create i c ∨ put.op = .append i c)
    (hack : put.reply ≠ none) (hspare : ∀ e ∈ es₂, e.op.Spares i) (hgot : got = ⟨.read i, some a⟩) :
    ∃ old d, (put.op = .create i c → old = []) ∧ a.bytes <+: old ++ c ++ d ∧
      ((old ++ c ++ d).length < limit → a = ⟨(old ++ c ++ d).length, old ++ c ++ d⟩) ∧
      ((∀ e ∈ es₂, ∀ x, e.op = .append i x → e.reply ≠ none) → d = ByteStore.appended i es₂) := by
  obtain ⟨s₁, -, s₂, hput', hrest⟩ := h.split
  obtain ⟨s₃, hbetween, s₄, hread, -⟩ := Run.split hrest
  obtain ⟨old, hold, hfresh⟩ := hput'.put hput hack
  obtain ⟨d, hd⟩ := hbetween.grows hold hspare
  subst hgot
  cases hread with
  | acked hanswers =>
    obtain ⟨x, hx, hpre, hall⟩ := hanswers
    rw [hd] at hx
    cases hx
    refine ⟨old, d, hfresh, hpre, hall, fun hacks => ?_⟩
    have happ := hbetween.appended hold hspare hacks
    rw [hd] at happ
    exact List.append_cancel_left (Option.some.inj happ)

end

end

/-! ## Open files -/

/-- Where an open file stands. -/
inductive Cursor where
  | offset (n : Nat)
  /-- Every write goes to the end. -/
  | last
deriving DecidableEq, Repr

namespace Cursor

/-- The sequence after `bs` was written. -/
def write : Cursor → List β → List β → List β
  | .offset n, c, bs => c.take n ++ bs ++ c.drop (n + bs.length)
  | last, c, bs => c ++ bs

def advance : Cursor → Nat → Cursor
  | .offset n, k => .offset (n + k)
  | last, _ => last

/-- The next write goes to the end. -/
def AtEnd (cur : Cursor) (c : List β) : Prop := cur = .offset c.length ∨ cur = last

theorem AtEnd.write {cur : Cursor} {c : List β} (h : cur.AtEnd c) (bs : List β) : cur.write c bs = c ++ bs := by
  rcases h with rfl | rfl
  · rw [Cursor.write, List.take_length, List.drop_eq_nil_of_le (by omega), List.append_nil]
  · rfl

theorem AtEnd.advance {cur : Cursor} {c : List β} (h : cur.AtEnd c) (bs : List β) :
    (cur.advance bs.length).AtEnd (c ++ bs) := by
  rcases h with rfl | rfl
  · exact Or.inl (by rw [Cursor.advance, List.length_append])
  · exact Or.inr rfl

end Cursor

end ByteStore
