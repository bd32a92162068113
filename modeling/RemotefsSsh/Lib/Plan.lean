import RemotefsSsh.Lib.Built

/-!
# Programs that work through a plan

`work` says which calls are work, and under what label. `Works` is for a part of an operation: it does all of its plan
when it returns and a first part of it otherwise, and is refused only while nothing was done. `Built.works` reads it
off how the part is put together. `Adheres` is for a whole operation, which may assign to its record, and
`runAll_adheres` about runs.
-/

namespace Effect

open Prog

variable {F : Iface} {κ σ ε ε' α β τ : Type} (work : F.Call → Option τ)

def worked (es : List (Sigma F.Reply)) : List τ := es.filterMap fun e => work e.1

/-- The work since `log₀`. -/
def Done (log₀ : List (Sigma F.Reply)) (ts : List τ) (st : St F κ σ) : Prop :=
  Since log₀ (fun es => worked work es = ts) st

/-- How an operation ended that did `ts`. -/
structure Ended (ρ : ε → Prop) (plan : List τ) (o : Out ε α) (ts : List τ) : Prop where
  part : ts <+: plan
  whole : ∀ a, o = .ok a → ts = plan
  refused : ∀ e, o = .err e → ρ e → ts = []

def Adheres (H : Handler F σ) (k : κ) (ρ : ε → Prop) (plan : List τ) (m : Prog F κ σ ε α) : Prop :=
  ∀ log₀, Triple H (fun st => st.self = k ∧ Done work log₀ [] st) m (fun _ => Done work log₀ plan)
    fun e => Since log₀ fun es => worked work es <+: plan ∧ ∀ err, e = some err → ρ err → worked work es = []

section
variable {work} {H : Handler F σ} {k : κ} {ρ : ε → Prop} {plan rest ts : List τ} {log₀ : List (Sigma F.Reply)}

theorem Done.asked {st : St F κ σ} (h : Done work log₀ ts st) (c : F.Call) :
    Done work log₀ (ts ++ (work c).toList) (asked H c st) := by
  refine Since.asked h H c fun es hts => ?_
  rw [← hts]
  cases hc : work c <;> simp [worked, hc]

/-- What is no work leaves the work where it was. -/
theorem done_only {m : Prog F κ σ ε α} (hm : Only (work · = none) m) :
    Triple H (Done work log₀ ts) m (fun _ => Done work log₀ ts) fun _ => Done work log₀ ts :=
  hm.triple fun c hc st h => by simpa [hc] using h.asked (H := H) c

/-- The record plays no part in it. -/
theorem done_modify (f : κ → κ) : Triple H (Done work log₀ ts) (Prog.modifySelf f : Prog F κ σ ε Unit)
    (fun _ => Done work log₀ ts) fun _ => Done work log₀ ts :=
  .modifySelf fun _ h => h

/-! ## Built of pieces -/

/-- After `ts` a first part of the plan was done; an error in `ρ` means nothing of it, and nothing before. -/
def Underway (work : F.Call → Option τ) (log₀ : List (Sigma F.Reply)) (k : κ) (ρ : ε → Prop)
    (b : Bool) (plan ts : List τ)
    (e : Option ε) (st : St F κ σ) : Prop :=
  st.self = k ∧ Since log₀ (fun es => ∃ us, us <+: plan ∧ worked work es = ts ++ us ∧
    ∀ err, e = some err → ρ err → b = false ∧ us = []) st

/-- `k` is the record before and after. `m` does its plan when it returns and a first part of it otherwise. -/
def Works (work : F.Call → Option τ) (H : Handler F σ) (k : κ) (ρ : ε → Prop) (b : Bool) (plan : List τ) (Q : α → Prop)
    (m : Prog F κ σ ε α) : Prop :=
  ∀ log₀ ts, Triple H (fun st => st.self = k ∧ Done work log₀ ts st) m
    (fun a st => Q a ∧ st.self = k ∧ Done work log₀ (ts ++ plan) st) (Underway work log₀ k ρ b plan ts)

section
variable {b : Bool} {e : Option ε} {st : St F κ σ}

/-- Nothing was done of it. -/
theorem Underway.nothing (h : st.self = k ∧ Done work log₀ ts st) (he : ∀ err, e = some err → ρ err → b = false) :
    Underway work log₀ k ρ b plan ts e st :=
  ⟨h.1, h.2.imp fun _ hes => ⟨[], List.nil_prefix, by rw [hes, List.append_nil], fun err herr hρ =>
    ⟨he err herr hρ, rfl⟩⟩⟩

theorem Underway.first (h : Underway work log₀ k ρ b plan ts e st) : Underway work log₀ k ρ b (plan ++ rest) ts e st :=
  ⟨h.1, h.2.imp fun _ ⟨us, hus, hes⟩ => ⟨us, hus.trans (List.prefix_append _ _), hes⟩⟩

/-- Behind a first part of the plan no error is in `ρ`. -/
theorem Underway.behind (h : Underway work log₀ k ρ true rest (ts ++ plan) e st) :
    Underway work log₀ k ρ b (plan ++ rest) ts e st := by
  refine ⟨h.1, h.2.imp fun es ⟨us, hus, hes, hno⟩ => ⟨plan ++ us, (List.prefix_append_right_inj plan).2 hus, ?_, ?_⟩⟩
  · rw [hes, List.append_assoc]
  · intro err herr hρ
    cases (hno err herr hρ).1

/-- An error that was put in other words. -/
theorem Underway.reworded {e' : ε} (h : Underway work log₀ k ρ b plan ts e st) (he : ¬ ρ e') :
    Underway work log₀ k ρ b plan ts (some e') st :=
  ⟨h.1, h.2.imp fun _ ⟨us, hus, hes, _⟩ => ⟨us, hus, hes, fun _ herr hρ => by cases herr; exact absurd hρ he⟩⟩

end

namespace Works

variable {b : Bool} {Q : α → Prop} {S : β → Prop}

theorem pure {a : α} (h : Q a) : Works work H k ρ b [] Q (Pure.pure a : Prog F κ σ ε α) := fun _ ts =>
  .pure fun _ hst => ⟨h, hst.1, by simpa using hst.2⟩

theorem throw {e : ε} (he : b = true → ¬ ρ e) : Works work H k ρ b plan Q (Prog.throw e : Prog F κ σ ε α) := fun _ _ =>
  .throw fun _ h => .nothing h fun err herr hρ => by
    cases herr
    exact Bool.eq_false_iff.2 fun hb => he hb hρ

theorem spin : Works work H k ρ b plan Q (Prog.spin : Prog F κ σ ε α) := fun _ _ => .spin fun _ h => .nothing h nofun

theorem call (c : F.Call) : Works work H k ρ b (work c).toList (fun _ => True) (Prog.call c : Prog F κ σ ε _) :=
  fun _ _ =>
  .call fun _ h => ⟨trivial, h.1, h.2.asked c⟩

theorem ofOut {o : Out ε α} (he : ∀ e, o = .err e → ¬ ρ e) :
    Works work H k ρ b [] (fun a => o = .ok a) (Prog.ofOut o : Prog F κ σ ε α) := by
  intro log₀ ts
  constructor
  · intro st a st' h hr
    cases hr
    exact ⟨rfl, h.1, by simpa using h.2⟩
  · intro st o' st' h hr _
    cases hr
    refine .nothing h fun err herr hρ => absurd hρ (he err ?_)
    cases o <;> cases herr
    rfl

theorem imp {Q' : α → Prop} {m : Prog F κ σ ε α} (hm : Works work H k ρ b plan Q m) (hQ : ∀ a, Q a → Q' a) :
    Works work H k ρ b plan Q' m := fun log₀ ts =>
  (hm log₀ ts).conseq (fun _ h => h) (fun a _ h => ⟨hQ a h.1, h.2⟩) fun _ _ h => h

/-- First something without work. -/
theorem look {m : Prog F κ σ ε α} {f : α → Prog F κ σ ε β} (hm : Works work H k ρ b [] Q m)
    (hf : ∀ a, Q a → Works work H k ρ b plan S (f a)) : Works work H k ρ b plan S (m >>= f) := fun log₀ ts =>
  .bind ((hm log₀ ts).conseq (fun _ h => h) (fun _ _ h => h) fun _ _ h => h.first) fun a => .given fun ha =>
    (hf a ha log₀ ts).pre fun _ h => by rwa [List.append_nil] at h

/-- The second part of a plan. -/
theorem behind {m : Prog F κ σ ε α} (hm : Works work H k ρ true rest Q m) (log₀ : List (Sigma F.Reply)) (ts : List τ) :
    Triple H (fun st => st.self = k ∧ Done work log₀ (ts ++ plan) st) m
      (fun a st => Q a ∧ st.self = k ∧ Done work log₀ (ts ++ (plan ++ rest)) st)
      (Underway work log₀ k ρ b (plan ++ rest) ts) :=
  (hm log₀ (ts ++ plan)).conseq (fun _ h => h) (fun _ _ h => by rwa [← List.append_assoc]) fun _ _ h => h.behind

theorem bind {m : Prog F κ σ ε α} {f : α → Prog F κ σ ε β} (hm : Works work H k ρ b plan Q m)
    (hf : ∀ a, Q a → Works work H k ρ true rest S (f a)) :
    Works work H k ρ b (plan ++ rest) S (m >>= f) := fun log₀ ts =>
  .bind ((hm log₀ ts).conseq (fun _ h => h) (fun _ _ h => h) fun _ _ h => h.first) fun a => .given fun ha =>
    (hf a ha).behind log₀ ts

theorem self {f : κ → Prog F κ σ ε α} (hf : Works work H k ρ b plan Q (f k)) :
    Works work H k ρ b plan Q (Prog.self >>= f) := fun log₀ ts =>
  .self fun k' => by
    by_cases hk : k' = k
    · subst hk
      exact (hf log₀ ts).pre fun _ h => h.1
    · exact ⟨fun h => absurd (h.2.symm.trans h.1.1) hk, fun h => absurd (h.2.symm.trans h.1.1) hk⟩

theorem unwrap {o : Option β} {f : β → Prog F κ σ ε α} (hf : ∀ c, o = some c → Works work H k ρ b plan Q (f c)) :
    Works work H k ρ b plan Q (Prog.unwrap o >>= f) := fun log₀ ts =>
  .unwrap (fun _ _ h => .nothing h nofun) fun c hc => hf c hc log₀ ts

/-- What was looked at in vain. -/
theorem attempt {m : Prog F κ σ ε α} (hm : Works work H k ρ false [] Q m) :
    Works work H k ρ b [] (fun r => ∀ a, r = .ok a → Q a)
      (Prog.attempt m : Prog F κ σ ε (Except ε α)) := fun log₀ ts => by
  have hnothing : ∀ {e : Option ε} {st : St F κ σ}, Underway work log₀ k ρ false [] ts e st →
      st.self = k ∧ Done work log₀ (ts ++ []) st := fun h =>
    ⟨h.1, h.2.imp fun es ⟨us, hus, hes, _⟩ => by rw [hes, List.prefix_nil.1 hus]⟩
  refine .attempt (Q := fun r st => (∀ a, r = .ok a → Q a) ∧ st.self = k ∧ Done work log₀ (ts ++ []) st)
    ((hm log₀ ts).conseq (fun _ h => h) (fun a st h => ⟨fun _ ha => by cases ha; exact h.1, h.2⟩) fun _ _ h => h)
    (fun e st h => ⟨nofun, hnothing h⟩) fun st h => ?_
  obtain ⟨hk, hdone⟩ := hnothing h
  exact .nothing ⟨hk, by rwa [List.append_nil] at hdone⟩ nofun

/-- Whatever stopped `m` stops the whole. -/
theorem tried {m : Prog F κ σ ε α} {f : Except ε α → Prog F κ σ ε β} (hm : Works work H k ρ b plan Q m)
    (hok : ∀ a, Q a → Works work H k ρ true rest S (f (.ok a)))
    (herr : ∀ e, ∃ e', f (.error e) = Prog.throw e' ∧ ¬ ρ e') :
    Works work H k ρ b (plan ++ rest) S (Prog.attempt m >>= f) := by
  intro log₀ ts
  refine .bind (.attempt (Q := Answered (fun a st => Q a ∧ st.self = k ∧ Done work log₀ (ts ++ plan) st)
    fun e => Underway work log₀ k ρ b (plan ++ rest) ts (some e)) ((hm log₀ ts).conseq (fun _ h => h) (fun _ _ h => h)
      fun _ _ h => h.first) (fun _ _ h => h) fun _ h => h) fun r => ?_
  cases r with
  | ok a => exact .given fun ha => (hok a ha).behind log₀ ts
  | error e =>
    obtain ⟨e', he', hno⟩ := herr e
    rw [he']
    exact .throw fun st h => h.reworded hno

end Works

/-- **The whole does its work in the order of its pieces.** -/
theorem Built.works {P : Pieces F κ σ ε τ} {υ : Prop} {b : Bool} {Q : α → Prop} {m : Prog F κ σ ε α}
    (hm : Built P υ ρ k b plan Q m) (hP : ∀ α ts Q m, P α ts Q m → ∀ b, Works work H k ρ b ts Q m) :
    Works work H k ρ b plan Q m := by
  induction hm with
  | pure h => exact .pure h
  | throw h => exact .throw h
  | piece h => exact hP _ _ _ _ h _
  | imp _ hQ ih => exact ih.imp hQ
  | look _ _ ihm ihf => exact ihm.look ihf
  | work _ _ ihm ihf => exact ihm.bind ihf
  | self _ ih => exact .self ih
  | unwrap _ _ ih => exact .unwrap ih
  | attempt _ ih => exact .attempt ih
  | tried _ _ herr ihm ihf => exact ihm.tried ihf herr

/-- An empty plan, whatever the record is. -/
theorem done_works {b : Bool} {Q : κ → α → Prop} {m : Prog F κ σ ε α} (hm : ∀ k, Works work H k ρ b [] (Q k) m) :
    Triple H (Done work log₀ ts) m (fun _ => Done work log₀ ts) fun _ => Done work log₀ ts where
  returns {st _ _} hst hr := by
    obtain ⟨-, -, hdone⟩ := (hm st.self log₀ ts).returns ⟨rfl, hst⟩ hr
    rwa [List.append_nil] at hdone
  stops {st _ _} hst hr ho := by
    obtain ⟨-, hsince⟩ := (hm st.self log₀ ts).stops ⟨rfl, hst⟩ hr ho
    refine hsince.imp fun es hes => ?_
    obtain ⟨us, hus, hes, -⟩ := hes
    rw [hes, List.prefix_nil.1 hus, List.append_nil]

/-- The smallest pieces: calls in `C`, results at hand, and no more steps. -/
inductive Calls (work : F.Call → Option τ) (C : F.Call → Prop) (ρ : ε → Prop) : Pieces F κ σ ε τ
  | call {c : F.Call} : C c → Calls work C ρ (F.Reply c) (work c).toList (fun _ => True) (Prog.call c)
  | ofOut {α : Type} {o : Out ε α} : (∀ e, o = .err e → ¬ ρ e) → o ≠ .panic .unwrapNone →
      Calls work C ρ α [] (fun a => o = .ok a) (Prog.ofOut o)
  | spin {α : Type} {ts : List τ} {Q : α → Prop} : Calls work C ρ α ts Q Prog.spin

namespace Calls

variable {C : F.Call → Prop} {Q : α → Prop} {m : Prog F κ σ ε α}

theorem works (h : Calls work C ρ α plan Q m) (b : Bool) : Works work H k ρ b plan Q m := by
  cases h with
  | call _ => exact .call _
  | ofOut he _ => exact .ofOut he
  | spin => exact .spin

theorem only (h : Calls work C ρ α plan Q m) : Only C m ∧ ∀ (H : Handler F σ) st a, (m H st).1 = .ok a → Q a := by
  cases h with
  | call hc => exact ⟨.call hc, fun _ _ _ _ => trivial⟩
  | ofOut _ _ => exact ⟨.ofOut _, fun _ _ _ ha => ha⟩
  | spin => exact ⟨.spin, fun _ _ _ ha => by cases ha⟩

/-- No `unwrap` fails in them. -/
theorem unwraps (h : Calls work C ρ α plan Q m) (H : Handler F σ) : Breaks H (fun b _ => b ≠ .panic .unwrapNone) m := by
  cases h with
  | call _ => exact .call _
  | @ofOut _ o _ ho =>
    refine .ofOut fun b hb _ hno => ho ?_
    subst hno
    cases o <;> cases hb
    rfl
  | spin => exact .spin fun _ => nofun

end Calls

/-! ## Whole operations -/

namespace Adheres

theorem of_works {Q : α → Prop} {m : Prog F κ σ ε α} (hm : Works work H k ρ false plan Q m) :
    Adheres work H k ρ plan m := fun log₀ =>
  (hm log₀ []).conseq (fun _ h => h) (fun _ _ h => h.2.2) fun _ _ h =>
    h.2.imp fun _ ⟨_, hus, hes, hno⟩ => ⟨hes ▸ hus, fun err herr hρ => by rw [hes, (hno err herr hρ).2]; rfl⟩

theorem map {m : Prog F κ σ ε α} (g : α → β) (hm : Adheres work H k ρ plan m) :
    Adheres work H k ρ plan (m >>= fun a => Pure.pure (g a)) := fun log₀ => .bind (hm log₀) fun _ => .pure fun _ h => h

/-- No plan: nothing is done, whatever becomes of the record. -/
theorem nothing {m : Prog F κ σ ε α}
    (hm : ∀ log₀, Triple H (Done work log₀ []) m (fun _ => Done work log₀ []) fun _ => Done work log₀ []) :
    Adheres work H k ρ [] m := fun log₀ =>
  (hm log₀).conseq (fun _ h => h.2) (fun _ _ h => h) fun _ _ h =>
    h.imp fun _ hes => ⟨hes ▸ List.nil_prefix, fun _ _ _ => hes⟩

theorem ended {m : Prog F κ σ ε α} (hm : Adheres work H k ρ plan m) {st : St F κ σ} (hk : st.self = k) :
    ∃ es, (m H st).2.log = st.log ++ es ∧ Ended ρ plan (m H st).1 (worked work es) := by
  have h0 : st.self = k ∧ Done work st.log [] st := ⟨hk, [], (List.append_nil _).symm, rfl⟩
  cases hr : m H st with
  | mk o st' =>
    cases o with
    | ok a =>
      obtain ⟨es, hlog, hes⟩ := (hm st.log).returns h0 hr
      exact ⟨es, hlog, hes ▸ List.prefix_rfl, fun _ _ => hes, fun _ h => by cases h⟩
    | err e =>
      obtain ⟨es, hlog, hpart, href⟩ := (hm st.log).stops h0 hr (by simp)
      exact ⟨es, hlog, hpart, fun _ h => (by cases h), fun e' h => by cases h; exact href e rfl⟩
    | panic p =>
      obtain ⟨es, hlog, hpart, -⟩ := (hm st.log).stops h0 hr (by simp)
      exact ⟨es, hlog, hpart, fun _ h => (by cases h), fun _ h => by cases h⟩
    | spin =>
      obtain ⟨es, hlog, hpart, -⟩ := (hm st.log).stops h0 hr (by simp)
      exact ⟨es, hlog, hpart, fun _ h => (by cases h), fun _ h => by cases h⟩

end Adheres

end

/-! ## Runs -/

section
variable {ι : Type} (H : Handler F σ) (run : ι → Prog F κ σ ε Unit) (plan : κ → ι → List τ) (ρ : ι → ε → Prop)

/-- The work of a run is that of its operations, one after another, each on its plan at that moment. -/
def Kept : List ι → St F κ σ → List τ → Prop
  | [], _, ts => ts = []
  | op :: ops, st, ts =>
    ∃ us vs, ts = us ++ vs ∧ Ended (ρ op) (plan st.self op) (run op H st).1 us ∧ Kept ops (run op H st).2 vs

variable {H run plan ρ} {work}

theorem runAll_adheres (h : ∀ op k, Adheres work H k (ρ op) (plan k op) (run op)) (ops : List ι) (st : St F κ σ) :
    ∃ es, (runAll H run ops st).log = st.log ++ es ∧ Kept H run plan ρ ops st (worked work es) := by
  induction ops generalizing st with
  | nil => exact since_self rfl
  | cons op ops ih =>
    obtain ⟨es, hlog, hended⟩ := (h op st.self).ended rfl
    obtain ⟨es', hlog', hkept⟩ := ih (run op H st).2
    refine ⟨es ++ es', ?_, worked work es, worked work es', List.filterMap_append, hended, hkept⟩
    change (runAll H run ops (run op H st).2).log = st.log ++ (es ++ es')
    rw [hlog', hlog, List.append_assoc]

end

end Effect
