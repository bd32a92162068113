/-!
# Programs that talk to an environment

A program owns a mutable record (`self`) and asks an environment for everything else: each call is
answered by a `Handler`, which may change the environment's own state, and is written to a log
together with its reply. A program ends with a value, an error, a panic, or not at all within the
steps it was given (`spin`).

One judgement carries most invariants: `Keeps P R m`, every run of `m` from a state in `P` goes to an
`R`-related one and no `unwrap` fails on it, with a rule for each way to build a program. `Quiet` is
the relation of the programs that only ask: they leave the record alone.
-/

namespace Effect

/-- The calls a program can make, and what each is answered with. -/
structure Iface where
  Call : Type
  Reply : Call → Type

inductive Panic where
  | unwrapNone
  | strSlice
  | outOfRange
deriving DecidableEq, Repr

inductive Out (ε α : Type) where
  | ok (a : α)
  | err (e : ε)
  | panic (p : Panic)
  | spin
deriving DecidableEq

namespace Out

protected def bind {ε α β : Type} : Out ε α → (α → Out ε β) → Out ε β
  | ok a, f => f a
  | err e, _ => err e
  | panic p, _ => panic p
  | spin, _ => spin

instance {ε : Type} : Monad (Out ε) where
  pure := Out.ok
  bind := Out.bind

/-- `Option::unwrap` -/
def unwrap {ε α : Type} : Option α → Out ε α
  | some a => ok a
  | none => panic .unwrapNone

/-- A slice of a text at byte offsets. -/
def unwrapSlice {ε α : Type} : Option α → Out ε α
  | some a => ok a
  | none => panic .strSlice

def isOk {ε α : Type} : Out ε α → Bool
  | ok _ => true
  | _ => false

@[simp] theorem pure_eq {ε α : Type} (a : α) : (pure a : Out ε α) = .ok a := rfl

@[simp] theorem ok_bind {ε α β : Type} (a : α) (f : α → Out ε β) : (Out.ok a >>= f) = f a := rfl

@[simp] theorem err_bind {ε α β : Type} (e : ε) (f : α → Out ε β) : (Out.err e >>= f) = .err e := rfl

@[simp] theorem panic_bind {ε α β : Type} (p : Panic) (f : α → Out ε β) : (Out.panic p >>= f) = .panic p := rfl

@[simp] theorem unwrapSlice_none {ε α : Type} : (unwrapSlice none : Out ε α) = .panic .strSlice := rfl

@[simp] theorem unwrap_some {ε α : Type} (a : α) : (unwrap (some a) : Out ε α) = .ok a := rfl

@[simp] theorem unwrapSlice_some {ε α : Type} (a : α) : (unwrapSlice (some a) : Out ε α) = .ok a := rfl

end Out

/-- An environment with state `σ`. -/
structure Handler (F : Iface) (σ : Type) where
  reply : (c : F.Call) → σ → F.Reply c × σ

structure St (F : Iface) (κ σ : Type) where
  self : κ
  env : σ
  log : List (Sigma F.Reply)

def Prog (F : Iface) (κ σ ε α : Type) : Type := Handler F σ → St F κ σ → Out ε α × St F κ σ

variable {F : Iface} {κ σ ε ε' α β : Type}

namespace Prog

protected def pure (a : α) : Prog F κ σ ε α := fun _ st => (.ok a, st)

protected def bind (m : Prog F κ σ ε α) (f : α → Prog F κ σ ε β) : Prog F κ σ ε β := fun H st =>
  match m H st with
  | (.ok a, st') => f a H st'
  | (.err e, st') => (.err e, st')
  | (.panic p, st') => (.panic p, st')
  | (.spin, st') => (.spin, st')

instance : Monad (Prog F κ σ ε) where
  pure := Prog.pure
  bind := Prog.bind

/-- `return Err(e)` -/
def throw (e : ε) : Prog F κ σ ε α := fun _ st => (.err e, st)

def spin : Prog F κ σ ε α := fun _ st => (.spin, st)

/-- The owned record. -/
def self : Prog F κ σ ε κ := fun _ st => (.ok st.self, st)

/-- Assign to the owned record. -/
def modifySelf (f : κ → κ) : Prog F κ σ ε Unit := fun _ st => (.ok (), { st with self := f st.self })

def call (c : F.Call) : Prog F κ σ ε (F.Reply c) := fun H st =>
  let r := H.reply c st.env
  (.ok r.1, { st with env := r.2, log := st.log ++ [⟨c, r.1⟩] })

/-- The result as a value, for a caller that inspects it; panics go through. -/
def attempt (m : Prog F κ σ ε α) : Prog F κ σ ε' (Except ε α) := fun H st =>
  match m H st with
  | (.ok a, st') => (.ok (.ok a), st')
  | (.err e, st') => (.ok (.error e), st')
  | (.panic p, st') => (.panic p, st')
  | (.spin, st') => (.spin, st')

/-- A result that is at hand. -/
def ofOut (o : Out ε α) : Prog F κ σ ε α := fun _ st => (o, st)

/-- `Option::unwrap` -/
def unwrap (o : Option α) : Prog F κ σ ε α := ofOut (Out.unwrap o)

/-- `if let Some(a) = o { f(a)?; }` -/
def ifSome (o : Option α) (f : α → Prog F κ σ ε Unit) : Prog F κ σ ε Unit :=
  match o with
  | some a => f a
  | none => Prog.pure ()

end Prog

open Prog

/-! ## Runs -/

section
variable {H : Handler F σ} {st st' : St F κ σ}

@[simp] theorem pure_run (a : α) : (pure a : Prog F κ σ ε α) H st = (.ok a, st) := rfl

@[simp] theorem throw_run (e : ε) : (throw e : Prog F κ σ ε α) H st = (.err e, st) := rfl

@[simp] theorem ofOut_run (o : Out ε α) : (ofOut o : Prog F κ σ ε α) H st = (o, st) := rfl

@[simp] theorem unwrap_run (a : α) : (unwrap (some a) : Prog F κ σ ε α) H st = (.ok a, st) := rfl

@[simp] theorem self_run : (self : Prog F κ σ ε κ) H st = (.ok st.self, st) := rfl

@[simp] theorem modifySelf_run (f : κ → κ) :
    (modifySelf f : Prog F κ σ ε Unit) H st = (.ok (), { st with self := f st.self }) := rfl

theorem bind_run (m : Prog F κ σ ε α) (f : α → Prog F κ σ ε β) :
    (m >>= f) H st = match m H st with
      | (.ok a, st') => f a H st'
      | (.err e, st') => (.err e, st')
      | (.panic p, st') => (.panic p, st')
      | (.spin, st') => (.spin, st') := rfl

theorem bind_ok {m : Prog F κ σ ε α} {f : α → Prog F κ σ ε β} {a : α} (h : m H st = (.ok a, st')) :
    (m >>= f) H st = f a H st' := by rw [bind_run, h]

theorem bind_err {m : Prog F κ σ ε α} {f : α → Prog F κ σ ε β} {e : ε} (h : m H st = (.err e, st')) :
    (m >>= f) H st = (.err e, st') := by rw [bind_run, h]

theorem bind_panic {m : Prog F κ σ ε α} {f : α → Prog F κ σ ε β} {p : Panic} (h : m H st = (.panic p, st')) :
    (m >>= f) H st = (.panic p, st') := by rw [bind_run, h]

theorem bind_bind {γ : Type} (m : Prog F κ σ ε α) (f : α → Prog F κ σ ε β) (g : β → Prog F κ σ ε γ) :
    m >>= f >>= g = m >>= fun a => f a >>= g := by
  funext H st
  rw [bind_run, bind_run, bind_run]
  cases m H st with
  | mk o st' => cases o <;> rfl

theorem attempt_ok {m : Prog F κ σ ε α} {a : α} (h : m H st = (.ok a, st')) :
    (attempt m : Prog F κ σ ε' _) H st = (.ok (.ok a), st') := by simp only [attempt, h]

theorem attempt_eq_ok {m : Prog F κ σ ε α} {a : α} (h : (attempt m : Prog F κ σ ε' _) H st = (.ok (.ok a), st')) :
    m H st = (.ok a, st') := by
  unfold attempt at h
  split at h <;> cases h
  assumption

theorem attempt_err {m : Prog F κ σ ε α} {e : ε} (h : m H st = (.err e, st')) :
    (attempt m : Prog F κ σ ε' _) H st = (.ok (.error e), st') := by simp only [attempt, h]

/-- A run that returns went through a value of its first part. -/
theorem bind_eq_ok {m : Prog F κ σ ε α} {f : α → Prog F κ σ ε β} {b : β} (h : (m >>= f) H st = (.ok b, st')) :
    ∃ a st₁, m H st = (.ok a, st₁) ∧ f a H st₁ = (.ok b, st') := by
  rw [bind_run] at h
  split at h
  · rename_i a st₁ hm; exact ⟨a, st₁, hm, h⟩
  all_goals cases h

theorem attempt_eq_error {m : Prog F κ σ ε α} {e : ε} (h : (attempt m : Prog F κ σ ε' _) H st = (.ok (.error e), st')) :
    m H st = (.err e, st') := by
  unfold attempt at h
  split at h <;> cases h
  assumption

/-- A run that goes on with a part of the record found it there. -/
theorem unwrap_self_eq_ok {γ : Type} {proj : κ → Option γ} {f : γ → Prog F κ σ ε β} {b : β}
    (h : (self >>= fun k => unwrap (proj k) >>= f) H st = (.ok b, st')) :
    ∃ c, proj st.self = some c ∧ f c H st = (.ok b, st') := by
  rw [bind_ok self_run] at h
  cases hc : proj st.self with
  | none =>
    rw [hc] at h
    cases h
  | some c =>
    rw [hc, bind_ok (unwrap_run c)] at h
    exact ⟨c, rfl, h⟩

/-- A run that fails has failed in its first part or behind it. -/
theorem bind_eq_err {m : Prog F κ σ ε α} {f : α → Prog F κ σ ε β} {e : ε} (h : (m >>= f) H st = (.err e, st')) :
    m H st = (.err e, st') ∨ ∃ a st₁, m H st = (.ok a, st₁) ∧ f a H st₁ = (.err e, st') := by
  rw [bind_run] at h
  split at h
  · rename_i a st₁ hm; exact Or.inr ⟨a, st₁, hm, h⟩
  · rename_i hm; cases h; exact Or.inl hm
  · cases h
  · cases h

end

/-! ## What every run keeps -/

/-- `R` composes along a run. -/
structure Stable (R : St F κ σ → St F κ σ → Prop) : Prop where
  refl : ∀ st, R st st
  trans : ∀ {a b c}, R a b → R b c → R a c

theorem stable_any : Stable fun _ _ : St F κ σ => True := ⟨fun _ => trivial, fun _ _ => trivial⟩

/-- From a state in `P`, every run of `m` goes to an `R`-related state and is not stopped by an
`unwrap` of `None`. -/
def Keeps (H : Handler F σ) (P : St F κ σ → Prop) (R : St F κ σ → St F κ σ → Prop) (m : Prog F κ σ ε α) : Prop :=
  ∀ st, P st → R st (m H st).2 ∧ (m H st).1 ≠ .panic .unwrapNone

namespace Keeps

variable {H : Handler F σ} {P : St F κ σ → Prop} {R : St F κ σ → St F κ σ → Prop}

theorem throw (hR : Stable R) (e : ε) : Keeps H P R (Prog.throw e : Prog F κ σ ε α) :=
  fun st _ => ⟨hR.refl st, by simp⟩

theorem call {c : F.Call} (h : ∀ st, P st → R st ((Prog.call c : Prog F κ σ ε _) H st).2) :
    Keeps H P R (Prog.call c : Prog F κ σ ε (F.Reply c)) := fun st hP => ⟨h st hP, by simp [Prog.call]⟩

theorem attempt {m : Prog F κ σ ε α} (hm : Keeps H P R m) :
    Keeps H P R (Prog.attempt m : Prog F κ σ ε' (Except ε α)) := by
  intro st hP
  have h1 := hm st hP
  unfold Prog.attempt
  split <;> rename_i hr <;> rw [hr] at h1
  · exact ⟨h1.1, by simp⟩
  · exact ⟨h1.1, by simp⟩
  · exact ⟨h1.1, by simpa using h1.2⟩
  · exact ⟨h1.1, by simp⟩

end Keeps

/-! ## What every run does, also one that panics -/

/-- Every run of `m` goes along `R`. -/
def Runs (H : Handler F σ) (R : St F κ σ → St F κ σ → Prop) (m : Prog F κ σ ε α) : Prop := ∀ st, R st (m H st).2

namespace Runs

variable {H : Handler F σ} {P : St F κ σ → Prop} {R : St F κ σ → St F κ σ → Prop}

theorem pure (hR : Stable R) (a : α) : Runs H R (Pure.pure a : Prog F κ σ ε α) := fun st => hR.refl st

theorem throw (hR : Stable R) (e : ε) : Runs H R (Prog.throw e : Prog F κ σ ε α) := fun st => hR.refl st

theorem ofOut (hR : Stable R) (o : Out ε α) : Runs H R (Prog.ofOut o : Prog F κ σ ε α) := fun st => hR.refl st

theorem bind (hR : Stable R) {m : Prog F κ σ ε α} {f : α → Prog F κ σ ε β} (hm : Runs H R m)
    (hf : ∀ a, Runs H R (f a)) : Runs H R (m >>= f) := by
  intro st
  have h := hm st
  rw [bind_run]
  split <;> rename_i hr <;> rw [hr] at h
  · exact hR.trans h (hf _ _)
  · exact h
  · exact h
  · exact h

theorem attempt {m : Prog F κ σ ε α} (hm : Runs H R m) : Runs H R (Prog.attempt m : Prog F κ σ ε' (Except ε α)) := by
  intro st
  have h := hm st
  unfold Prog.attempt
  split <;> rename_i hr <;> rwa [hr] at h

theorem self {f : κ → Prog F κ σ ε β} (hf : ∀ k, Runs H R (f k)) : Runs H R (Prog.self >>= f) :=
  fun st => hf st.self st

theorem ite {c : Prop} [Decidable c] {m n : Prog F κ σ ε α} (hm : Runs H R m) (hn : Runs H R n) :
    Runs H R (if c then m else n) := by
  split
  · exact hm
  · exact hn

end Runs

/-! ## Programs that end -/

/-- Every run ends within the steps it is given. -/
def Halts (m : Prog F κ σ ε α) : Prop := ∀ H st, (m H st).1 ≠ .spin

/-- An error or a panic. -/
def Stopped (o : Out ε α) : Prop := (∃ e, o = .err e) ∨ ∃ p, o = .panic p

/-- A program that ends goes on with a value or stops the rest. -/
theorem Halts.bind_cases {m : Prog F κ σ ε α} (hm : Halts m) (f : α → Prog F κ σ ε β) (H : Handler F σ)
    (st : St F κ σ) :
    (∃ a st', m H st = (.ok a, st') ∧ (m >>= f) H st = f a H st') ∨ Stopped ((m >>= f) H st).1 := by
  have h := hm H st
  rw [bind_run]
  cases hr : m H st with
  | mk o st' =>
    cases o with
    | ok a => exact Or.inl ⟨a, st', rfl, rfl⟩
    | err e => exact Or.inr (Or.inl ⟨e, rfl⟩)
    | panic p => exact Or.inr (Or.inr ⟨p, rfl⟩)
    | spin => rw [hr] at h; exact absurd rfl h

/-! ## Programs that never fail in a certain way -/

/-- No run ends with an error in `E`. -/
def Avoids (H : Handler F σ) (E : ε → Prop) (m : Prog F κ σ ε α) : Prop := ∀ st e, (m H st).1 = .err e → ¬ E e

namespace Avoids

variable {H : Handler F σ} {E : ε → Prop}

theorem pure (a : α) : Avoids H E (Pure.pure a : Prog F κ σ ε α) := fun _ _ h => by cases h

theorem throw {e : ε} (he : ¬ E e) : Avoids H E (Prog.throw e : Prog F κ σ ε α) := fun _ _ h => by cases h; exact he

theorem call (c : F.Call) : Avoids H E (Prog.call c : Prog F κ σ ε (F.Reply c)) := fun _ _ h => by cases h

theorem spin : Avoids H E (Prog.spin : Prog F κ σ ε α) := fun _ _ h => by cases h

theorem modifySelf (f : κ → κ) : Avoids H E (Prog.modifySelf f : Prog F κ σ ε Unit) := fun _ _ h => by cases h

theorem ofOut {o : Out ε α} (ho : ∀ e, o = .err e → ¬ E e) : Avoids H E (Prog.ofOut o : Prog F κ σ ε α) :=
  fun _ e h => ho e h

theorem unwrap (o : Option α) : Avoids H E (Prog.unwrap o : Prog F κ σ ε α) := by
  refine ofOut fun e h => ?_
  cases o <;> cases h

theorem bind {m : Prog F κ σ ε α} {f : α → Prog F κ σ ε β} (hm : Avoids H E m) (hf : ∀ a, Avoids H E (f a)) :
    Avoids H E (m >>= f) := by
  intro st e h
  rw [bind_run] at h
  split at h <;> rename_i hr
  · exact hf _ _ e h
  · cases h
    exact hm st e (by rw [hr])
  · cases h
  · cases h

theorem self {f : κ → Prog F κ σ ε β} (hf : ∀ k, Avoids H E (f k)) : Avoids H E (Prog.self >>= f) :=
  fun st e h => hf st.self st e h

theorem attempt {E' : ε' → Prop} (m : Prog F κ σ ε α) : Avoids H E' (Prog.attempt m : Prog F κ σ ε' (Except ε α)) := by
  intro st e h
  unfold Prog.attempt at h
  split at h <;> cases h

theorem ite {c : Prop} [Decidable c] {m n : Prog F κ σ ε α} (hm : Avoids H E m) (hn : Avoids H E n) :
    Avoids H E (if c then m else n) := by
  split
  · exact hm
  · exact hn

theorem ifSome {o : Option α} {f : α → Prog F κ σ ε Unit} (hf : ∀ a, Avoids H E (f a)) :
    Avoids H E (Prog.ifSome o f) := by
  cases o with
  | none => exact pure ()
  | some a => exact hf a

end Avoids

/-! ## Runs that do not panic -/

def Calm (H : Handler F σ) (m : Prog F κ σ ε α) (st : St F κ σ) : Prop := ∀ p, (m H st).1 ≠ .panic p

namespace Calm

variable {H : Handler F σ} {st : St F κ σ}

theorem pure (a : α) : Calm H (Pure.pure a : Prog F κ σ ε α) st := fun _ h => by cases h

theorem throw (e : ε) : Calm H (Prog.throw e : Prog F κ σ ε α) st := fun _ h => by cases h

theorem call (c : F.Call) : Calm H (Prog.call c : Prog F κ σ ε (F.Reply c)) st := fun _ h => by cases h

theorem ofOut {o : Out ε α} (ho : ∀ p, o ≠ .panic p) : Calm H (Prog.ofOut o : Prog F κ σ ε α) st := ho

theorem bind {m : Prog F κ σ ε α} {f : α → Prog F κ σ ε β} (hm : Calm H m st)
    (hf : ∀ a st', m H st = (.ok a, st') → Calm H (f a) st') : Calm H (m >>= f) st := by
  intro p h
  rw [bind_run] at h
  split at h <;> rename_i hr
  · exact hf _ _ hr p h
  · cases h
  · exact hm _ (by rw [hr])
  · cases h

theorem self {f : κ → Prog F κ σ ε β} (hf : Calm H (f st.self) st) : Calm H (Prog.self >>= f) st := hf

theorem attempt {m : Prog F κ σ ε α} (hm : Calm H m st) : Calm H (Prog.attempt m : Prog F κ σ ε' (Except ε α)) st := by
  intro p h
  unfold Prog.attempt at h
  split at h <;> rename_i hr <;> cases h
  exact hm p (by rw [hr])

theorem ifSome {o : Option α} {f : α → Prog F κ σ ε Unit} (hf : ∀ a, o = some a → Calm H (f a) st) :
    Calm H (Prog.ifSome o f) st := by
  cases o with
  | none => exact pure ()
  | some a => exact hf a rfl

end Calm

/-! ## Runs that return -/

/-- With a value or an error. -/
def Finishes (H : Handler F σ) (m : Prog F κ σ ε α) (st : St F κ σ) : Prop :=
  (∃ a st', m H st = (.ok a, st')) ∨ ∃ e st', m H st = (.err e, st')

namespace Finishes

variable {H : Handler F σ} {st : St F κ σ}

theorem pure (a : α) : Finishes H (Pure.pure a : Prog F κ σ ε α) st := Or.inl ⟨a, st, rfl⟩

theorem throw (e : ε) : Finishes H (Prog.throw e : Prog F κ σ ε α) st := Or.inr ⟨e, st, rfl⟩

theorem call (c : F.Call) : Finishes H (Prog.call c : Prog F κ σ ε (F.Reply c)) st := Or.inl ⟨_, _, rfl⟩

theorem bind {m : Prog F κ σ ε α} {f : α → Prog F κ σ ε β} (hm : Finishes H m st)
    (hf : ∀ a st', Finishes H (f a) st') : Finishes H (m >>= f) st := by
  rcases hm with ⟨a, st', h⟩ | ⟨e, st', h⟩
  · unfold Finishes
    rw [bind_ok h]
    exact hf a st'
  · exact Or.inr ⟨e, st', bind_err h⟩

end Finishes

/-! ## Programs that only ask -/

/-- The record is as it was, every call made is in `C`, and the environment moved along `E`. -/
structure Quiet (C : F.Call → Prop) (E : σ → σ → Prop) (st st' : St F κ σ) : Prop where
  self : st'.self = st.self
  env : E st.env st'.env
  log : ∃ new, st'.log = st.log ++ new ∧ ∀ e ∈ new, C e.1

section
variable {C : F.Call → Prop} {E : σ → σ → Prop} {H : Handler F σ}

theorem quiet_stable (refl : ∀ s, E s s) (trans : ∀ {a b c}, E a b → E b c → E a c) :
    Stable (Quiet C E : St F κ σ → St F κ σ → Prop) where
  refl st := ⟨rfl, refl _, [], by simp, by simp⟩
  trans := by
    rintro a b c ⟨h1, h2, n, hn, hc⟩ ⟨h3, h4, n', hn', hc'⟩
    refine ⟨h3.trans h1, trans h2 h4, n ++ n', by rw [hn', hn, List.append_assoc], fun e he => ?_⟩
    rcases List.mem_append.1 he with he | he
    · exact hc e he
    · exact hc' e he

theorem quiet_call {c : F.Call} (hc : C c) (hE : ∀ s, E s (H.reply c s).2) (st : St F κ σ) :
    Quiet C E st ((Prog.call c : Prog F κ σ ε _) H st).2 :=
  ⟨rfl, hE _, [⟨c, _⟩], rfl, by simpa using hc⟩

end

/-! ## Operations that change the record -/

/-- From `st`, a run of `m` keeps `Inv`, no `unwrap` fails in it, and an error leaves the record as it
was. -/
structure Good (H : Handler F σ) (Inv : St F κ σ → Prop) (m : Prog F κ σ ε α) (st : St F κ σ) : Prop where
  inv : Inv (m H st).2
  unwrap : (m H st).1 ≠ .panic .unwrapNone
  err : ∀ e, (m H st).1 = .err e → (m H st).2.self = st.self

/-- `m` fails at once: nothing is asked and nothing changes. -/
def Refuses (H : Handler F σ) (m : Prog F κ σ ε α) (st : St F κ σ) : Prop := ∃ e, m H st = (.err e, st)

/-- The state after a sequence of operations, whatever each of them returned. -/
def runAll {ι : Type} (H : Handler F σ) (run : ι → Prog F κ σ ε Unit) (ops : List ι) (st : St F κ σ) : St F κ σ :=
  ops.foldl (fun st op => (run op H st).2) st

/-- Each operation is as `Met` says when its turn comes. -/
def EachStep {ι : Type} (H : Handler F σ) (run : ι → Prog F κ σ ε Unit) (Met : ι → St F κ σ → Prop) :
    List ι → St F κ σ → Prop
  | [], _ => True
  | op :: ops, st => Met op st ∧ EachStep H run Met ops (run op H st).2

section
variable {C : F.Call → Prop} {E : σ → σ → Prop} {H : Handler F σ} {P Inv : St F κ σ → Prop} {st : St F κ σ}

theorem Good.of_keeps {m : Prog F κ σ ε α} (hm : Keeps H P (Quiet C E) m) (hP : P st)
    (hInv : ∀ st', Quiet C E st st' → Inv st') : Good H Inv m st := by
  obtain ⟨hq, hu⟩ := hm st hP
  exact ⟨hInv _ hq, hu, fun _ _ => hq.self⟩

theorem Good.of_run {m : Prog F κ σ ε α} {o : Out ε α} {st₁ : St F κ σ} (h : m H st = (o, st₁)) (hInv : Inv st₁)
    (hu : o ≠ .panic .unwrapNone) (hself : st₁.self = st.self) : Good H Inv m st := by
  refine ⟨?_, ?_, fun _ _ => ?_⟩
  · rw [h]; exact hInv
  · rw [h]; exact hu
  · rw [h]; exact hself

theorem Good.of_ok {m : Prog F κ σ ε α} {a : α} {st₁ : St F κ σ} (h : m H st = (.ok a, st₁)) (hInv : Inv st₁) :
    Good H Inv m st := by
  refine ⟨?_, ?_, ?_⟩ <;> rw [h]
  · exact hInv
  · simp
  · simp

theorem Good.bind_ok {m : Prog F κ σ ε α} {f : α → Prog F κ σ ε β} {a : α} {st₁ : St F κ σ} (h : m H st = (.ok a, st₁))
    (hself : st₁.self = st.self) (hf : Good H Inv (f a) st₁) : Good H Inv (m >>= f) st := by
  obtain ⟨h1, h2, h3⟩ := hf
  rw [← Effect.bind_ok (f := f) h] at h1 h2 h3
  exact ⟨h1, h2, fun e he => (h3 e he).trans hself⟩

theorem Good.bind_self {f : κ → Prog F κ σ ε β} (h : Good H Inv (f st.self) st) : Good H Inv (Prog.self >>= f) st :=
  ⟨h.inv, h.unwrap, h.err⟩

theorem Good.dropValue {m : Prog F κ σ ε α} (h : Good H Inv m st) : Good H Inv (do let _ ← m) st := by
  obtain ⟨h1, h2, h3⟩ := h
  cases hr : m H st with
  | mk o st₁ =>
    rw [hr] at h1 h2 h3
    cases o with
    | ok a => exact .of_ok (by rw [bind_run, hr]; rfl) h1
    | err e => exact .of_run (by rw [bind_run, hr]) h1 (by simp) (h3 e rfl)
    | panic p => exact ⟨by rw [bind_run, hr]; exact h1, by rw [bind_run, hr]; simpa using h2, fun _ he => by
        rw [bind_run, hr] at he; cases he⟩
    | spin => exact ⟨by rw [bind_run, hr]; exact h1, by rw [bind_run, hr]; simp, fun _ he => by
        rw [bind_run, hr] at he; cases he⟩

/-- A first part that only asks. -/
theorem Good.bind_keeps {m : Prog F κ σ ε α} {f : α → Prog F κ σ ε β} (hm : Keeps H P (Quiet C E) m) (hP : P st)
    (hInv : ∀ st', Quiet C E st st' → Inv st')
    (hf : ∀ a st', m H st = (.ok a, st') → Quiet C E st st' → Good H Inv (f a) st') : Good H Inv (m >>= f) st := by
  obtain ⟨hq, hu⟩ := hm st hP
  cases hr : m H st with
  | mk o st₁ =>
    rw [hr] at hq hu
    cases o with
    | ok a => exact .bind_ok hr hq.self (hf a st₁ hr hq)
    | err e => exact .of_run (by rw [bind_run, hr]) (hInv _ hq) (by simp) hq.self
    | panic p => exact .of_run (by rw [bind_run, hr]) (hInv _ hq) (by simpa using hu) hq.self
    | spin => exact .of_run (by rw [bind_run, hr]) (hInv _ hq) (by simp) hq.self

theorem Refuses.bind {m : Prog F κ σ ε α} (h : Refuses H m st) (f : α → Prog F κ σ ε β) : Refuses H (m >>= f) st := by
  obtain ⟨e, he⟩ := h
  exact ⟨e, bind_err he⟩

section
variable {ι : Type} (I : St F κ σ → Prop) {run : ι → Prog F κ σ ε Unit} {Met : ι → St F κ σ → Prop} {ops : List ι}

theorem eachStep_any (h : ∀ op st, Met op st) : EachStep H run Met ops st := by
  induction ops generalizing st with
  | nil => trivial
  | cons op ops ih => exact ⟨h op st, ih⟩

/-- What every operation keeps that is as `Met` says holds after any sequence of such. -/
theorem runAll_inv_of (h : ∀ op st, Met op st → I st → I (run op H st).2)
    (hops : EachStep H run Met ops st) (h0 : I st) :
    I (runAll H run ops st) := by
  induction ops generalizing st with
  | nil => exact h0
  | cons op ops ih => exact ih hops.2 (h op st hops.1 h0)

/-- What every operation keeps holds after any sequence of them. -/
theorem runAll_inv (h : ∀ op st, I st → I (run op H st).2) (ops : List ι) (h0 : I st) : I (runAll H run ops st) :=
  have hops : EachStep H run (fun _ _ => True) ops st := eachStep_any fun _ _ => trivial
  runAll_inv_of I (fun op st _ => h op st) hops h0

end

end

end Effect
