import RemotefsSsh.Lib.Effect

/-!
# Rules for programs that talk to an environment

Two judgements beside those of `Effect`. `Triple H P m Q E` is a Hoare triple: from a state in `P` a run of
`m` that returns ends in `Q`, and one that stops otherwise ends in `E`, which is told the error. `Only C m` says
that `m` does nothing but calls in `C`, and so runs along every preorder that these calls run along.
-/

namespace Effect

open Prog

variable {F : Iface} {κ σ ε ε' α β : Type}

/-- After a call. -/
def asked (H : Handler F σ) (c : F.Call) (st : St F κ σ) : St F κ σ :=
  { st with env := (H.reply c st.env).2, log := st.log ++ [⟨c, (H.reply c st.env).1⟩] }

/-- One condition after an answer, another after a refusal. -/
abbrev Answered {X : Type} (P : α → X → Prop) (E : ε → X → Prop) : Except ε α → X → Prop
  | .ok a => P a
  | .error e => E e

/-- The calls since `log₀` are as `P` says. -/
def Since (log₀ : List (Sigma F.Reply)) (P : List (Sigma F.Reply) → Prop) (st : St F κ σ) : Prop :=
  ∃ es, st.log = log₀ ++ es ∧ P es

theorem Since.imp {log₀ : List (Sigma F.Reply)} {P Q : List (Sigma F.Reply) → Prop}
    {st : St F κ σ} (h : Since log₀ P st)
    (hPQ : ∀ es, P es → Q es) : Since log₀ Q st := by
  obtain ⟨es, hlog, hP⟩ := h
  exact ⟨es, hlog, hPQ es hP⟩

theorem since_self {P : List (Sigma F.Reply) → Prop} {st : St F κ σ} (h : P []) : Since st.log P st :=
  ⟨[], (List.append_nil _).symm, h⟩

/-- One more call. -/
theorem Since.asked {log₀ : List (Sigma F.Reply)} {P Q : List (Sigma F.Reply) → Prop}
    {st : St F κ σ} (h : Since log₀ P st)
    (H : Handler F σ) (c : F.Call) (hPQ : ∀ es, P es → Q (es ++ [⟨c, (H.reply c st.env).1⟩])) :
    Since log₀ Q (Effect.asked H c st) := by
  obtain ⟨es, hlog, hP⟩ := h
  refine ⟨es ++ [⟨c, (H.reply c st.env).1⟩], ?_, hPQ es hP⟩
  rw [← List.append_assoc, ← hlog, Effect.asked]

/-! ## Triples -/

/-- The error of a run that did not return; none for a panic, and for a run that needs more steps. -/
def Out.error? : Out ε α → Option ε
  | .err e => some e
  | _ => none

structure Triple (H : Handler F σ) (P : St F κ σ → Prop) (m : Prog F κ σ ε α) (Q : α → St F κ σ → Prop)
    (E : Option ε → St F κ σ → Prop) : Prop where
  returns : ∀ {st a st'}, P st → m H st = (.ok a, st') → Q a st'
  stops : ∀ {st o st'}, P st → m H st = (o, st') → (∀ a, o ≠ .ok a) → E o.error? st'

namespace Triple

variable {H : Handler F σ} {P P' : St F κ σ → Prop} {Q Q' : α → St F κ σ → Prop} {R : β → St F κ σ → Prop}
  {E E' : Option ε → St F κ σ → Prop}

theorem pure {a : α} (h : ∀ st, P st → Q a st) : Triple H P (Pure.pure a : Prog F κ σ ε α) Q E where
  returns hP hr := by cases hr; exact h _ hP
  stops _ hr ho := by cases hr; exact absurd rfl (ho a)

theorem throw {e : ε} (h : ∀ st, P st → E (some e) st) : Triple H P (Prog.throw e : Prog F κ σ ε α) Q E where
  returns _ hr := by cases hr
  stops hP hr _ := by cases hr; exact h _ hP

theorem ofOut {o : Out ε α} (h : ∀ st, P st → P' st) :
    Triple H P (Prog.ofOut o : Prog F κ σ ε α) (fun _ => P') fun _ => P' where
  returns hP hr := by cases hr; exact h _ hP
  stops hP hr _ := by cases hr; exact h _ hP

theorem spin (h : ∀ st, P st → E none st) : Triple H P (Prog.spin : Prog F κ σ ε α) Q E where
  returns _ hr := by cases hr
  stops hP hr _ := by cases hr; exact h _ hP

theorem call {c : F.Call} {Q : F.Reply c → St F κ σ → Prop}
    (h : ∀ st, P st → Q (H.reply c st.env).1 (asked H c st)) :
    Triple H P (Prog.call c : Prog F κ σ ε _) Q E where
  returns hP hr := by cases hr; exact h _ hP
  stops _ hr ho := by cases hr; exact absurd rfl (ho _)

theorem bind {m : Prog F κ σ ε α} {f : α → Prog F κ σ ε β} (hm : Triple H P m Q E)
    (hf : ∀ a, Triple H (Q a) (f a) R E) : Triple H P (m >>= f) R E where
  returns hP hr := by
    obtain ⟨a, st₁, h₁, h⟩ := bind_eq_ok hr
    exact (hf a).returns (hm.returns hP h₁) h
  stops {st o st'} hP hr ho := by
    rw [bind_run] at hr
    cases h₁ : m H st with
    | mk o₁ st₁ =>
      rw [h₁] at hr
      cases o₁ with
      | ok a => exact (hf a).stops (hm.returns hP h₁) hr ho
      | err e => cases hr; exact hm.stops hP h₁ (by simp)
      | panic p => cases hr; exact hm.stops hP h₁ (by simp)
      | spin => cases hr; exact hm.stops hP h₁ (by simp)

theorem conseq {m : Prog F κ σ ε α} (h : Triple H P' m Q' E') (hP : ∀ st, P st → P' st)
    (hQ : ∀ a st, Q' a st → Q a st) (hE : ∀ e st, E' e st → E e st) : Triple H P m Q E where
  returns hp hr := hQ _ _ (h.returns (hP _ hp) hr)
  stops hp hr ho := hE _ _ (h.stops (hP _ hp) hr ho)

theorem pre {m : Prog F κ σ ε α} (h : Triple H P' m Q E) (hP : ∀ st, P st → P' st) : Triple H P m Q E :=
  h.conseq hP (fun _ _ hq => hq) fun _ _ he => he

theorem exists_pre {ξ : Type} {P : ξ → St F κ σ → Prop} {m : Prog F κ σ ε α} (h : ∀ x, Triple H (P x) m Q E) :
    Triple H (fun st => ∃ x, P x st) m Q E where
  returns := by
    rintro st a st' ⟨x, hP⟩ hr
    exact (h x).returns hP hr
  stops := by
    rintro st o st' ⟨x, hP⟩ hr ho
    exact (h x).stops hP hr ho

/-- A condition on no state. -/
theorem given {p : Prop} {m : Prog F κ σ ε α} (h : p → Triple H P m Q E) : Triple H (fun st => p ∧ P st) m Q E where
  returns := by
    rintro st a st' ⟨hp, hP⟩ hr
    exact (h hp).returns hP hr
  stops := by
    rintro st o st' ⟨hp, hP⟩ hr ho
    exact (h hp).stops hP hr ho

/-- The record that is read is the one that is there. -/
theorem self {f : κ → Prog F κ σ ε α} (h : ∀ k, Triple H (fun st => P st ∧ st.self = k) (f k) Q E) :
    Triple H P (Prog.self >>= f) Q E where
  returns {st _ _} hP hr := (h st.self).returns ⟨hP, rfl⟩ hr
  stops {st _ _} hP hr ho := (h st.self).stops ⟨hP, rfl⟩ hr ho

theorem unwrap {o : Option β} {f : β → Prog F κ σ ε α} (hnone : o = none → ∀ st, P st → E none st)
    (hsome : ∀ b, o = some b → Triple H P (f b) Q E) : Triple H P (Prog.unwrap o >>= f) Q E := by
  cases o with
  | none =>
    constructor
    · intro st a st' _ hr
      cases hr
    · intro st o st' hP hr _
      cases hr
      exact hnone rfl _ hP
  | some b => exact ⟨fun hP hr => (hsome b rfl).returns hP hr, fun hP hr ho => (hsome b rfl).stops hP hr ho⟩

theorem modifySelf {f : κ → κ} {Q : Unit → St F κ σ → Prop} (h : ∀ st, P st → Q () { st with self := f st.self }) :
    Triple H P (Prog.modifySelf f : Prog F κ σ ε Unit) Q E where
  returns hP hr := by cases hr; exact h _ hP
  stops _ hr ho := by cases hr; exact absurd rfl (ho ())

theorem ite {c : Prop} [Decidable c] {m n : Prog F κ σ ε α} (hm : c → Triple H P m Q E)
    (hn : ¬ c → Triple H P n Q E) : Triple H P (if c then m else n) Q E := by
  split
  · exact hm ‹_›
  · exact hn ‹_›

theorem attempt {m : Prog F κ σ ε α} {Q : Except ε α → St F κ σ → Prop} {E' : Option ε' → St F κ σ → Prop}
    (h : Triple H P m (fun a => Q (.ok a)) E) (herr : ∀ e st, E (some e) st → Q (.error e) st)
    (hstop : ∀ st, E none st → E' none st) : Triple H P (Prog.attempt m : Prog F κ σ ε' (Except ε α)) Q E' := by
  have hrun : ∀ st, ∃ o st', m H st = (o, st') ∧ (Prog.attempt m : Prog F κ σ ε' (Except ε α)) H st =
      (match o with
        | .ok a => .ok (.ok a)
        | .err e => .ok (.error e)
        | .panic p => .panic p
        | .spin => .spin, st') := by
    intro st
    refine ⟨_, _, rfl, ?_⟩
    unfold Prog.attempt
    cases m H st with
    | mk o st' => cases o <;> rfl
  constructor
  · intro st r st' hP hr
    obtain ⟨o, st₁, h₁, h₂⟩ := hrun st
    rw [h₂] at hr
    cases o with
    | ok a => cases hr; exact h.returns hP h₁
    | err e => cases hr; exact herr e _ (h.stops hP h₁ (by simp))
    | panic p => cases hr
    | spin => cases hr
  · intro st r st' hP hr ho
    obtain ⟨o, st₁, h₁, h₂⟩ := hrun st
    rw [h₂] at hr
    cases o with
    | ok a => cases hr; exact absurd rfl (ho _)
    | err e => cases hr; exact absurd rfl (ho _)
    | panic p => cases hr; exact hstop _ (h.stops hP h₁ (by simp))
    | spin => cases hr; exact hstop _ (h.stops hP h₁ (by simp))

/-- Where the end is told by whether the run returned. -/
theorem isOk {S : Bool → St F κ σ → Prop} {m : Prog F κ σ ε α} (h : Triple H P m (fun _ => S true) fun _ => S false)
    {st : St F κ σ} (hP : P st) : S (m H st).1.isOk (m H st).2 := by
  cases hr : m H st with
  | mk o st' =>
    cases o with
    | ok a => exact h.returns hP hr
    | err e => exact h.stops hP hr (by simp)
    | panic p => exact h.stops hP hr (by simp)
    | spin => exact h.stops hP hr (by simp)

/-- What is known both of a run that returns and of one that does not. -/
theorem ends {m : Prog F κ σ ε α} (h : Triple H P m (fun _ => P') fun _ => P') {st : St F κ σ} (hP : P st) :
    P' (m H st).2 :=
  h.isOk (S := fun _ => P') hP

/-- What every run keeps holds however it ends. -/
theorem of_runs {S : St F κ σ → St F κ σ → Prop} {m : Prog F κ σ ε α} (hm : Runs H S m)
    (h : ∀ st st', P st → S st st' → P' st') : Triple H P m (fun _ => P') fun _ => P' where
  returns {st a st'} hP hr := h st st' hP (by have := hm st; rwa [hr] at this)
  stops {st o st'} hP hr _ := h st st' hP (by have := hm st; rwa [hr] at this)

theorem call_since {log₀ : List (Sigma F.Reply)} {c : F.Call} {P : List (Sigma F.Reply) → Prop}
    {Q : F.Reply c → List (Sigma F.Reply) → Prop} (h : ∀ es r, P es → Q r (es ++ [⟨c, r⟩])) :
    Triple H (Since log₀ P) (Prog.call c : Prog F κ σ ε _) (fun r => Since log₀ (Q r)) E :=
  .call fun _ hst => hst.asked H c fun es => h es _

end Triple

/-! ## The calls of a program -/

/-- `m` does nothing but calls in `C`: it runs along every preorder that these calls run along. -/
def Only (C : F.Call → Prop) (m : Prog F κ σ ε α) : Prop :=
  ∀ (H : Handler F σ) (R : St F κ σ → St F κ σ → Prop), Stable R →
    (∀ c, C c → ∀ st, R st (asked H c st)) → Runs H R m

namespace Only

variable {C C' : F.Call → Prop}

theorem pure (a : α) : Only C (Pure.pure a : Prog F κ σ ε α) := fun _ _ hR _ => .pure hR a

theorem throw (e : ε) : Only C (Prog.throw e : Prog F κ σ ε α) := fun _ _ hR _ => .throw hR e

theorem ofOut (o : Out ε α) : Only C (Prog.ofOut o : Prog F κ σ ε α) := fun _ _ hR _ => .ofOut hR o

theorem unwrap (o : Option α) : Only C (Prog.unwrap o : Prog F κ σ ε α) := ofOut _

theorem spin : Only C (Prog.spin : Prog F κ σ ε α) := fun _ _ hR _ st => hR.refl st

theorem call {c : F.Call} (hc : C c) : Only C (Prog.call c : Prog F κ σ ε (F.Reply c)) :=
  fun _ _ _ hcall st => hcall c hc st

theorem bind {m : Prog F κ σ ε α} {f : α → Prog F κ σ ε β} (hm : Only C m) (hf : ∀ a, Only C (f a)) :
    Only C (m >>= f) := fun H R hR hcall => .bind hR (hm H R hR hcall) fun a => hf a H R hR hcall

theorem self {f : κ → Prog F κ σ ε α} (hf : ∀ k, Only C (f k)) : Only C (Prog.self >>= f) :=
  fun H R hR hcall => .self fun k => hf k H R hR hcall

theorem mono {m : Prog F κ σ ε α} (hm : Only C m) (h : ∀ c, C c → C' c) : Only C' m :=
  fun H R hR hcall => hm H R hR fun c hc => hcall c (h c hc)

section
variable {m : Prog F κ σ ε α} {H : Handler F σ}

/-- The record is as it was. -/
theorem self_eq (hm : Only C m) (st : St F κ σ) : (m H st).2.self = st.self :=
  hm H (fun st st' => st'.self = st.self) ⟨fun _ => rfl, fun h1 h2 => h2.trans h1⟩ (fun _ _ _ => rfl) st

/-- A condition that the calls in `C` keep. -/
theorem triple (hm : Only C m) {P : St F κ σ → Prop} (h : ∀ c, C c → ∀ st, P st → P (asked H c st)) :
    Triple H P m (fun _ => P) fun _ => P :=
  .of_runs
    (hm H (fun st st' => P st → P st') ⟨fun _ => id, fun h1 h2 hp => h2 (h1 hp)⟩ h) fun _ _ hP hR => hR hP

end

end Only

/-! ## Runs that break off -/

/-- How a run ends that neither returns nor fails. -/
inductive Break where
  | panic (p : Panic)
  | spin
deriving DecidableEq

def Out.break? : Out ε α → Option Break
  | .panic p => some (.panic p)
  | .spin => some .spin
  | _ => none

/-- Where a run of `m` breaks off, `Ξ` says why. -/
def Breaks (H : Handler F σ) (Ξ : Break → St F κ σ → Prop) (m : Prog F κ σ ε α) : Prop :=
  ∀ st b, (m H st).1.break? = some b → Ξ b (m H st).2

namespace Breaks

variable {H : Handler F σ} {Ξ Ξ' : Break → St F κ σ → Prop}

theorem pure (a : α) : Breaks H Ξ (Pure.pure a : Prog F κ σ ε α) := fun _ _ h => by cases h

theorem throw (e : ε) : Breaks H Ξ (Prog.throw e : Prog F κ σ ε α) := fun _ _ h => by cases h

theorem call (c : F.Call) : Breaks H Ξ (Prog.call c : Prog F κ σ ε _) := fun _ _ h => by cases h

theorem modifySelf (f : κ → κ) : Breaks H Ξ (Prog.modifySelf f : Prog F κ σ ε Unit) := fun _ _ h => by cases h

theorem spin (h : ∀ st, Ξ .spin st) : Breaks H Ξ (Prog.spin : Prog F κ σ ε α) := fun st _ hb => by cases hb; exact h st

theorem ofOut {o : Out ε α} (h : ∀ b, o.break? = some b → ∀ st, Ξ b st) : Breaks H Ξ (Prog.ofOut o : Prog F κ σ ε α) :=
  fun st b hb => h b hb st

theorem bind {m : Prog F κ σ ε α} {f : α → Prog F κ σ ε β} (hm : Breaks H Ξ m) (hf : ∀ a, Breaks H Ξ (f a)) :
    Breaks H Ξ (m >>= f) := by
  intro st b hb
  have h := hm st
  rw [bind_run] at hb ⊢
  split at hb <;> rename_i hr <;> rw [hr] at h
  · exact hf _ _ b hb
  · cases hb
  · exact h b hb
  · exact h b hb

theorem self {f : κ → Prog F κ σ ε α} (hf : ∀ k, Breaks H Ξ (f k)) : Breaks H Ξ (Prog.self >>= f) :=
  fun st b hb => hf st.self st b hb

theorem attempt {m : Prog F κ σ ε α} (hm : Breaks H Ξ m) :
    Breaks H Ξ (Prog.attempt m : Prog F κ σ ε' (Except ε α)) := by
  intro st b hb
  have h := hm st
  unfold Prog.attempt at hb ⊢
  split at hb <;> rename_i hr <;> rw [hr] at h
  · cases hb
  · cases hb
  · exact h b hb
  · exact h b hb

theorem ite {c : Prop} [Decidable c] {m n : Prog F κ σ ε α} (hm : Breaks H Ξ m) (hn : Breaks H Ξ n) :
    Breaks H Ξ (if c then m else n) := by
  split
  · exact hm
  · exact hn

end Breaks

end Effect
