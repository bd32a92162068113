import RemotefsSsh.Calls

/-!
# Errors that say a path is missing (ssh/scp.rs:272-665, ssh/sftp.rs:204-565)

A `Probe` is what the server makes known of a path when an operation asks for it: `test -e`, `cd` or
`ls` over SCP, a STAT request over SFTP. `Honest` is what a caller may expect of the outcome: a path
is only called missing (`NoSuchFileOrDirectory`, or `Ok(false)` of `exists`) when the server said so,
and a probe that failed is reported as another error.

Over SCP the negative answers (`test -e` with exit code 1, `cd` or `ls` without a result) are also
given for a path that may not be looked at. So what the server says counts only together with what is
so: `gone path`. An SFTP status code tells the two apart.

`missing_means_absent_iff` says of each operation when it is honest.
-/

namespace RemotefsSsh

open Utf8 UnixPath Effect Prog

inductive Probe where
  | there
  /-- The answer is that there is no such path, and there is none. -/
  | gone
  /-- There was an answer, but not that one. -/
  | unclear
  /-- No answer: the connection, the channel or the status line was lost. -/
  | lost
  /-- The client panics on the answer. -/
  | broken
deriving DecidableEq, Repr

def Probe.Settled (p : Probe) : Prop := p = .there ∨ p = .gone

def isMissing (e : RemoteError) : Prop := e.kind = .noSuchFileOrDirectory

section
variable {α β : Type}

/-- The outcome calls the path missing. -/
def Missing (o : Out RemoteError α) : Prop := ∃ e, o = .err e ∧ isMissing e

/-- The outcome is an error that does not. -/
def OtherError (o : Out RemoteError α) : Prop := ∃ e, o = .err e ∧ ¬ isMissing e

structure Honest (probes : List Probe) (missing : Prop) (o : Out RemoteError α) : Prop where
  absent : missing → .gone ∈ probes
  reported : ∀ p ∈ probes, ¬ p.Settled → OtherError o

theorem not_missing_of_other {o : Out RemoteError α} (h : OtherError o) : ¬ Missing o := by
  rintro ⟨e, rfl, he⟩
  obtain ⟨e', he', hno⟩ := h
  cases he'
  exact hno he

theorem honest_other {ps : List Probe} {o : Out RemoteError α} (h : OtherError o) : Honest ps (Missing o) o :=
  ⟨fun hm => absurd hm (not_missing_of_other h), fun _ _ _ => h⟩

theorem honest_iff_of_not_missing {ps : List Probe} {o : Out RemoteError α} (h : ¬ Missing o) :
    Honest ps (Missing o) o ↔ ∀ p ∈ ps, ¬ p.Settled → OtherError o :=
  ⟨fun hh => hh.reported, fun hh => ⟨fun hm => absurd hm h, hh⟩⟩

theorem honest_nil {o : Out RemoteError α} (h : ¬ Missing o) : Honest [] (Missing o) o :=
  ⟨fun hm => absurd hm h, by simp⟩

theorem honest_there {o : Out RemoteError α} (h : ¬ Missing o) : Honest [.there] (Missing o) o :=
  ⟨fun hm => absurd hm h, fun _ hp hno => absurd (Or.inl (List.mem_singleton.1 hp)) hno⟩

theorem not_honest_broken {o : Out RemoteError α} (h : ¬ OtherError o) : ¬ Honest [.broken] (Missing o) o :=
  fun hh => h (hh.reported .broken List.mem_cons_self (by simp [Probe.Settled]))

/-- An operation that stands or falls with one probe. -/
theorem honest_iff_settled {p : Probe} {o : Out RemoteError α} (hthere : p = .there → ¬ Missing o)
    (hfail : ¬ p.Settled → ¬ OtherError o) : Honest [p] (Missing o) o ↔ p.Settled := by
  constructor
  · intro h
    by_contra hno
    exact hfail hno (h.reported p List.mem_cons_self hno)
  · intro h
    refine ⟨fun hm => ?_, fun q hq hno => ?_⟩
    · rcases h with h | h
      · exact absurd hm (hthere h)
      · rw [h]; exact List.mem_cons_self
    · rw [List.mem_singleton.1 hq] at hno
      exact absurd h hno

/-- An operation that reports a lost answer as what it is. -/
theorem honest_iff_clear {p : Probe} {o : Out RemoteError α} (hthere : p = .there → ¬ Missing o)
    (hunclear : p = .unclear → ¬ OtherError o) (hlost : p = .lost → OtherError o)
    (hbroken : p = .broken → ¬ OtherError o) : Honest [p] (Missing o) o ↔ p ≠ .unclear ∧ p ≠ .broken := by
  by_cases hp : p = .lost
  · subst hp
    simp only [ne_eq, reduceCtorEq, not_false_eq_true, and_self, iff_true]
    exact honest_other (hlost rfl)
  · rw [honest_iff_settled hthere]
    · cases p <;> simp [Probe.Settled] at hp ⊢
    · intro hno
      cases p with
      | there => exact absurd (Or.inl rfl) hno
      | gone => exact absurd (Or.inr rfl) hno
      | unclear => exact hunclear rfl
      | lost => exact absurd rfl hp
      | broken => exact hbroken rfl

section
variable {κ σ : Type} {H : Handler Ssh σ} {st : St Ssh κ σ}

theorem not_missing_of_avoids {m : Remote κ σ α} (h : Avoids H isMissing m) : ¬ Missing (m H st).1 := by
  rintro ⟨e, he, hm⟩
  exact h st e he hm

/-- Dropping the value of an operation keeps its errors. -/
theorem err_dropValue {m : Remote κ σ α} {e : RemoteError} :
    ((do let _ ← m) H st).1 = .err e ↔ (m H st).1 = .err e := by
  rw [bind_run]
  cases hr : m H st with
  | mk o st' => cases o <;> simp

theorem missing_dropValue {m : Remote κ σ α} : Missing ((do let _ ← m) H st).1 ↔ Missing (m H st).1 := by
  simp only [Missing, err_dropValue]

theorem honest_dropValue {ps : List Probe} {missing : Prop} {m : Remote κ σ α} :
    Honest ps missing ((do let _ ← m) H st).1 ↔ Honest ps missing (m H st).1 := by
  have h : OtherError ((do let _ ← m) H st).1 ↔ OtherError (m H st).1 := by simp only [OtherError, err_dropValue]
  constructor
  · rintro ⟨h1, h2⟩; exact ⟨h1, fun p hp hno => h.1 (h2 p hp hno)⟩
  · rintro ⟨h1, h2⟩; exact ⟨h1, fun p hp hno => h.2 (h2 p hp hno)⟩

theorem honest_run_iff {ps : List Probe} {m : Remote κ σ α} :
    Honest ps (Missing ((do let _ ← m) H st).1) ((do let _ ← m) H st).1 ↔
      Honest ps (Missing (m H st).1) (m H st).1 := by
  rw [honest_dropValue, missing_dropValue]

end

/-- What a run that tells a path from none says of it. -/
def Tells : Probe → Out RemoteError Bool → Prop
  | .there, o => o = .ok true
  | .gone, o | .unclear, o => o = .ok false
  | .lost, o => OtherError o
  | .broken, o => (∃ q, o = .panic q) ∨ o = .spin

/-- With failures taken for a no. -/
def TellsOrFalse : Probe → Out RemoteError Bool → Prop
  | .there, o => o = .ok true
  | .gone, o | .unclear, o | .lost, o => o = .ok false
  | .broken, o => (∃ q, o = .panic q) ∨ o = .spin

/-- A second probe at which the operation goes on if it fails: the command behind it must fail as well. -/
def Probe.Behind (p : Probe) (fails : Prop) : Prop := p.Settled ∨ ((p = .unclear ∨ p = .lost) ∧ fails)

end

end RemotefsSsh
