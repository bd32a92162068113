import RemotefsSsh.Lib.Hoare

/-!
# How a program is put together

`Built P υ ρ k b ts Q m`: from the record `k`, and leaving it as it is, `m` is put together of the pieces in `P`. It
does the work `ts` when it returns, and its value is in `Q`. `b` says that work was done before; from then on it fails
with no error in `ρ`. Where `υ` holds, every `unwrap` in it finds something.

One derivation for a program answers every question that its pieces can answer: `Built.goes` for what its runs go
along and why they break off, `Built.only` for the calls it makes, `Built.works` in `Lib/Plan.lean` for the order of
its work.
-/

namespace Effect

open Prog

/-- What programs may be put together of: a piece, the work it does, and what is known of its value. -/
abbrev Pieces (F : Iface) (κ σ ε τ : Type) : Type 1 := (α : Type) → List τ → (α → Prop) → Prog F κ σ ε α → Prop

variable {F : Iface} {κ σ ε τ α β : Type}

inductive Built (P : Pieces F κ σ ε τ) (υ : Prop) (ρ : ε → Prop) (k : κ) :
    {α : Type} → Bool → List τ → (α → Prop) → Prog F κ σ ε α → Prop
  | pure {α : Type} {b : Bool} {Q : α → Prop} {a : α} : Q a → Built P υ ρ k b [] Q (Pure.pure a)
  | throw {α : Type} {b : Bool} {ts : List τ} {Q : α → Prop} {e : ε} : (b = true → ¬ ρ e) →
      Built P υ ρ k b ts Q (Prog.throw e)
  | piece {α : Type} {b : Bool} {ts : List τ} {Q : α → Prop} {m : Prog F κ σ ε α} : P α ts Q m → Built P υ ρ k b ts Q m
  | imp {α : Type} {b : Bool} {ts : List τ} {Q Q' : α → Prop} {m : Prog F κ σ ε α} : Built P υ ρ k b ts Q m →
      (∀ a, Q a → Q' a) → Built P υ ρ k b ts Q' m
  /-- A first part without work. -/
  | look {α β : Type} {b : Bool} {ts : List τ} {S : α → Prop} {Q : β → Prop} {m : Prog F κ σ ε α}
      {f : α → Prog F κ σ ε β} :
      Built P υ ρ k b [] S m → (∀ a, S a → Built P υ ρ k b ts Q (f a)) → Built P υ ρ k b ts Q (m >>= f)
  | work {α β : Type} {b : Bool} {ts ts' : List τ} {S : α → Prop} {Q : β → Prop} {m : Prog F κ σ ε α}
      {f : α → Prog F κ σ ε β} : Built P υ ρ k b ts S m → (∀ a, S a → Built P υ ρ k true ts' Q (f a)) →
      Built P υ ρ k b (ts ++ ts') Q (m >>= f)
  | self {α : Type} {b : Bool} {ts : List τ} {Q : α → Prop} {f : κ → Prog F κ σ ε α} : Built P υ ρ k b ts Q (f k) →
      Built P υ ρ k b ts Q (Prog.self >>= f)
  | unwrap {α γ : Type} {b : Bool} {ts : List τ} {Q : α → Prop} {o : Option γ} {f : γ → Prog F κ σ ε α} :
      (υ → o.isSome = true) → (∀ c, o = some c → Built P υ ρ k b ts Q (f c)) →
        Built P υ ρ k b ts Q (Prog.unwrap o >>= f)
  | attempt {α : Type} {b : Bool} {Q : α → Prop} {m : Prog F κ σ ε α} : Built P υ ρ k false [] Q m →
      Built P υ ρ k b [] (fun r => ∀ a, r = .ok a → Q a) (Prog.attempt m : Prog F κ σ ε (Except ε α))
  /-- Work whose failure is told in other words. -/
  | tried {α β : Type} {b : Bool} {ts ts' : List τ} {S : α → Prop} {Q : β → Prop} {m : Prog F κ σ ε α}
      {f : Except ε α → Prog F κ σ ε β} : Built P υ ρ k b ts S m →
      (∀ a, S a → Built P υ ρ k true ts' Q (f (.ok a))) → (∀ e, ∃ e', f (.error e) = Prog.throw e' ∧ ¬ ρ e') →
      Built P υ ρ k b (ts ++ ts') Q (Prog.attempt m >>= f)

/-- A run that leaves the record at `k`, goes along `R`, and breaks off for a reason in `Ξ` only. -/
structure Goes (R : St F κ σ → St F κ σ → Prop) (Ξ : Break → St F κ σ → Prop) (k : κ) (Q : α → Prop) (st : St F κ σ)
    (r : Out ε α × St F κ σ) : Prop where
  along : R st r.2
  self : r.2.self = k
  value : ∀ a, r.1 = .ok a → Q a
  breaks : ∀ b, r.1.break? = some b → Ξ b r.2

namespace Goes

variable {R : St F κ σ → St F κ σ → Prop} {Ξ : Break → St F κ σ → Prop} {k : κ} {Q Q' : α → Prop} {st : St F κ σ}
  {r : Out ε α × St F κ σ}

theorem imp (h : Goes R Ξ k Q st r) (hQ : ∀ a, Q a → Q' a) : Goes R Ξ k Q' st r :=
  ⟨h.along, h.self, fun a ha => hQ a (h.value a ha), h.breaks⟩

theorem bind (hR : Stable R) {H : Handler F σ} {m : Prog F κ σ ε α} {f : α → Prog F κ σ ε β} {S : β → Prop}
    (hm : Goes R Ξ k Q st (m H st)) (hf : ∀ a st', Q a → st'.self = k → Goes R Ξ k S st' (f a H st')) :
    Goes R Ξ k S st ((m >>= f) H st) := by
  rw [bind_run]
  split <;> rename_i hr <;> rw [hr] at hm
  · rename_i a st'
    obtain ⟨h1, h2, h3, h4⟩ := hf a st' (hm.value a rfl) hm.self
    exact ⟨hR.trans hm.along h1, h2, h3, h4⟩
  · exact ⟨hm.along, hm.self, nofun, nofun⟩
  · exact ⟨hm.along, hm.self, nofun, hm.breaks⟩
  · exact ⟨hm.along, hm.self, nofun, hm.breaks⟩

theorem attempt {H : Handler F σ} {m : Prog F κ σ ε α} (hm : Goes R Ξ k Q st (m H st)) :
    Goes R Ξ k (fun r => ∀ a, r = .ok a → Q a) st ((Prog.attempt m : Prog F κ σ ε (Except ε α)) H st) := by
  unfold Prog.attempt
  split <;> rename_i hr <;> rw [hr] at hm
  · refine ⟨hm.along, hm.self, fun r hr a ha => hm.value a ?_, nofun⟩
    cases hr
    cases ha
    rfl
  · refine ⟨hm.along, hm.self, fun r hr a ha => ?_, nofun⟩
    cases hr
    cases ha
  · exact ⟨hm.along, hm.self, nofun, hm.breaks⟩
  · exact ⟨hm.along, hm.self, nofun, hm.breaks⟩

end Goes

/-- A program that does nothing but calls in `C`, and breaks off for a reason in `Ξ` only. -/
theorem Only.goes {C : F.Call → Prop} {m : Prog F κ σ ε α} (hm : Only C m) {H : Handler F σ}
    {R : St F κ σ → St F κ σ → Prop} (hR : Stable R) (hC : ∀ c, C c → ∀ st, R st (asked H c st))
    {Ξ : Break → St F κ σ → Prop} (hΞ : Breaks H Ξ m) {Q : α → Prop} (hQ : ∀ st a, (m H st).1 = .ok a → Q a)
    (st : St F κ σ) : Goes R Ξ st.self Q st (m H st) :=
  ⟨hm H R hR hC st, hm.self_eq st, hQ st, hΞ st⟩

namespace Built

variable {P P' : Pieces F κ σ ε τ} {υ : Prop} {ρ ρ' : ε → Prop} {k : κ} {b : Bool} {ts ts' : List τ} {Q Q' : α → Prop}
  {m : Prog F κ σ ε α}

theorem ite {c : Prop} [Decidable c] {n : Prog F κ σ ε α} (hm : c → Built P υ ρ k b ts Q m)
    (hn : ¬ c → Built P υ ρ k b ts Q n) : Built P υ ρ k b ts Q (if c then m else n) := by
  split
  · exact hm ‹_›
  · exact hn ‹_›

/-- Work, and then nothing but looking. -/
theorem work_look {S : α → Prop} {f : α → Prog F κ σ ε β} {Q : β → Prop} (hm : Built P υ ρ k b ts S m)
    (hf : ∀ a, S a → Built P υ ρ k true [] Q (f a)) : Built P υ ρ k b ts Q (m >>= f) := by
  have h := hm.work hf
  rwa [List.append_nil] at h

theorem tried_look {S : α → Prop} {f : Except ε α → Prog F κ σ ε β} {Q : β → Prop} (hm : Built P υ ρ k b ts S m)
    (hok : ∀ a, S a → Built P υ ρ k true [] Q (f (.ok a))) (herr : ∀ e, ∃ e', f (.error e) = Prog.throw e' ∧ ¬ ρ e') :
    Built P υ ρ k b ts Q (Prog.attempt m >>= f) := by
  have h := hm.tried hok herr
  rwa [List.append_nil] at h

theorem ifSome {o : Option α} {f : α → Prog F κ σ ε Unit} {t : α → τ}
    (hf : ∀ a, o = some a → Built P υ ρ k b [t a] (fun _ => True) (f a)) :
    Built P υ ρ k b (o.map t).toList (fun _ => True) (Prog.ifSome o f) := by
  cases o with
  | none => exact .pure trivial
  | some a => exact hf a rfl

/-- The value does not matter. -/
theorem drop (hm : Built P υ ρ k b ts Q m) : Built P υ ρ k b ts (fun _ => True) (do let _ ← m) :=
  hm.work_look fun _ _ => .pure trivial

/-- More pieces, and fewer errors to avoid. -/
theorem mono (hm : Built P υ ρ k b ts Q m) (hP : ∀ α ts Q m, P α ts Q m → P' α ts Q m) (hρ : ∀ e, ρ' e → ρ e) :
    Built P' υ ρ' k b ts Q m := by
  induction hm with
  | pure h => exact .pure h
  | throw h => exact .throw fun hb he => h hb (hρ _ he)
  | piece h => exact .piece (hP _ _ _ _ h)
  | imp _ hQ ih => exact .imp ih hQ
  | look _ _ ihm ihf => exact .look ihm ihf
  | work _ _ ihm ihf => exact .work ihm ihf
  | self _ ih => exact .self ih
  | unwrap hup _ ih => exact .unwrap hup ih
  | attempt _ ih => exact .attempt ih
  | tried _ _ herr ihm ihf =>
    refine .tried ihm ihf fun e => ?_
    obtain ⟨e', he', hno⟩ := herr e
    exact ⟨e', he', fun h => hno (hρ _ h)⟩

section
variable {H : Handler F σ} {R : St F κ σ → St F κ σ → Prop} {Ξ : Break → St F κ σ → Prop}

/-- **What every piece goes along, the whole goes along**, and where it breaks off, a piece has, or a handle is
missing. -/
theorem goes (hm : Built P υ ρ k b ts Q m) (hR : Stable R)
    (hP : ∀ α ts Q m, P α ts Q m → ∀ st, st.self = k → Goes R Ξ k Q st (m H st))
    (hup : ¬ υ → ∀ st, Ξ (.panic .unwrapNone) st) (st : St F κ σ) (hk : st.self = k) : Goes R Ξ k Q st (m H st) := by
  induction hm generalizing st with
  | pure h => exact ⟨hR.refl st, hk, fun _ ha => by cases ha; exact h, nofun⟩
  | throw _ => exact ⟨hR.refl st, hk, nofun, nofun⟩
  | piece h => exact hP _ _ _ _ h st hk
  | imp _ hQ ih => exact (ih st hk).imp hQ
  | look _ _ ihm ihf => exact (ihm st hk).bind hR fun a st' ha hk' => ihf a ha st' hk'
  | work _ _ ihm ihf => exact (ihm st hk).bind hR fun a st' ha hk' => ihf a ha st' hk'
  | self _ ih =>
    subst hk
    exact ih st rfl
  | @unwrap _ _ _ _ _ o _ hsome _ ih =>
    cases o with
    | some c => exact ih c rfl st hk
    | none =>
      refine ⟨hR.refl st, hk, nofun, fun b hb => ?_⟩
      cases hb
      exact hup (fun h => absurd (hsome h) Bool.false_ne_true) st
  | attempt _ ih => exact (ih st hk).attempt
  | tried _ _ herr ihm ihf =>
    refine (ihm st hk).attempt.bind hR fun r st' hr hk' => ?_
    cases r with
    | ok a => exact ihf a (hr a rfl) st' hk'
    | error e =>
      obtain ⟨e', he', -⟩ := herr e
      rw [he']
      exact ⟨hR.refl st', hk', nofun, nofun⟩

/-- Pieces that do nothing but calls. -/
theorem goes_only {C : F.Call → Prop} (hm : Built P υ ρ k b ts Q m) (hR : Stable R)
    (hC : ∀ c, C c → ∀ st, R st (asked H c st))
    (hP : ∀ α ts Q m, P α ts Q m → Only C m ∧ Breaks H Ξ m ∧ ∀ st a, (m H st).1 = .ok a → Q a)
    (hup : ¬ υ → ∀ st, Ξ (.panic .unwrapNone) st) (st : St F κ σ) (hk : st.self = k) : Goes R Ξ k Q st (m H st) := by
  refine hm.goes hR (fun _ _ _ _ hp st' hk' => ?_) hup st hk
  obtain ⟨honly, hbreaks, hvalue⟩ := hP _ _ _ _ hp
  exact hk' ▸ honly.goes hR hC hbreaks hvalue st'

end

/-- An invariant of the pieces is one of the whole. -/
theorem invariant {H : Handler F σ} {I : St F κ σ → Prop} (hm : Built P υ ρ k b ts Q m) (hk : ∀ st, I st → st.self = k)
    (hP : ∀ α ts Q m, P α ts Q m → Triple H I m (fun _ => I) (fun _ => I) ∧ ∀ st a, (m H st).1 = .ok a → Q a) :
    Triple H I m (fun a st => Q a ∧ I st) fun _ => I := by
  have hattempt : ∀ {α : Type} {Q : α → Prop} {m : Prog F κ σ ε α}, Triple H I m (fun a st => Q a ∧ I st) (fun _ => I) →
      Triple H I (Prog.attempt m : Prog F κ σ ε (Except ε α)) (fun r st => (∀ a, r = .ok a → Q a) ∧ I st) fun _ => I :=
    fun hm => .attempt (hm.conseq (fun _ h => h) (fun _ _ h =>
      ⟨fun _ ha => by cases ha; exact h.1, h.2⟩) fun _ _ h => h)
      (fun _ _ h => ⟨nofun, h⟩) fun _ h => h
  induction hm with
  | pure h => exact .pure fun _ hst => ⟨h, hst⟩
  | throw _ => exact .throw fun _ h => h
  | piece h =>
    obtain ⟨htriple, hvalue⟩ := hP _ _ _ _ h
    exact ⟨fun hst hr => ⟨hvalue _ _ (by rw [hr]), htriple.returns hst hr⟩, htriple.stops⟩
  | imp _ hQ ih => exact ih.conseq (fun _ h => h) (fun a _ h => ⟨hQ a h.1, h.2⟩) fun _ _ h => h
  | look _ _ ihm ihf => exact .bind ihm fun a => .given (ihf a)
  | work _ _ ihm ihf => exact .bind ihm fun a => .given (ihf a)
  | self _ ih =>
    exact .self fun k' => Triple.pre (.given (p := k' = k) fun hk' => hk' ▸ ih) fun _ h =>
      ⟨h.2.symm.trans (hk _ h.1), h.1⟩
  | unwrap _ _ ih => exact .unwrap (fun _ _ h => h) ih
  | attempt _ ih => exact hattempt ih
  | tried _ _ herr ihm ihf =>
    refine .bind (hattempt ihm) fun r => .given fun hr => ?_
    cases r with
    | ok a => exact ihf a (hr a rfl)
    | error e =>
      obtain ⟨e', he', -⟩ := herr e
      rw [he']
      exact .throw fun _ h => h

/-- The calls of the whole are those of the pieces, whatever the record is. -/
theorem only {C : F.Call → Prop} {P : κ → Pieces F κ σ ε τ} {υ : κ → Prop} {ts : κ → List τ} {Q : κ → α → Prop}
    (hm : ∀ k, Built (P k) (υ k) ρ k b (ts k) (Q k) m)
    (hP : ∀ k α ts Q m, P k α ts Q m → Only C m ∧ ∀ (H : Handler F σ) st a, (m H st).1 = .ok a → Q a) : Only C m := by
  intro H R hR hC st
  refine ((hm st.self).goes_only (Ξ := fun _ _ => True) hR hC (fun _ _ _ _ h => ?_) (fun _ _ => trivial) st rfl).along
  obtain ⟨honly, hvalue⟩ := hP _ _ _ _ _ h
  exact ⟨honly, fun _ _ _ => trivial, hvalue H⟩

end Built

end Effect
