import Mathlib.Logic.Function.Basic
import RemotefsSsh.Lib.Effect

/-!
# Several parties that talk to one environment

A trace tells who asked what, and what the answer was, in the order in which the environment answered (`Attended`).
Nobody sees more of it than the own part, which is the log of an own run: a list of jobs, each of which waits for a
while and then acts once, or not at all where it is free not to (`Jobs`). What a job makes of its act may depend on
what it is answered afterwards.

What acts change is then changed by all parties together as if each job was done at one moment, those of one party in
their order (`attended_chain`).
-/

namespace Effect

variable {F : Iface} {σ τ ι J X : Type}

/-- Asked one after another from `s`, the environment answers as the trace says and ends in `s'`. -/
def Attended (H : Handler F σ) : σ → List (ι × Sigma F.Reply) → σ → Prop
  | s, [], s' => s' = s
  | s, e :: g, s' => (H.reply e.2.1 s).1 = e.2.2 ∧ Attended H (H.reply e.2.1 s).2 g s'

section
variable [DecidableEq ι]

/-- What belongs to the party `i`. -/
def part (i : ι) (g : List (ι × X)) : List X := (g.filter fun e => e.1 = i).map Prod.snd

@[simp] theorem part_nil (i : ι) : part i ([] : List (ι × X)) = [] := rfl

@[simp] theorem part_cons_self (i : ι) (x : X) (g : List (ι × X)) : part i ((i, x) :: g) = x :: part i g := by
  simp [part]

theorem part_cons_of_ne {i k : ι} (h : i ≠ k) (x : X) (g : List (ι × X)) : part k ((i, x) :: g) = part k g := by
  simp [part, h]

/-- Until its next call a party has to do with the others only. -/
theorem Attended.first {H : Handler F σ} {s s' : σ} {g : List (ι × Sigma F.Reply)} (h : Attended H s g s') {i : ι}
    {e : Sigma F.Reply} {es : List (Sigma F.Reply)} (he : part i g = e :: es) {P : σ → Prop} (hP : P s)
    (hothers : ∀ k x s, (k, x) ∈ g → k ≠ i → P s → P (H.reply x.1 s).2) : ∃ s₁, P s₁ ∧ (H.reply e.1 s₁).1 = e.2 := by
  induction g generalizing s with
  | nil => cases he
  | cons d g ih =>
    obtain ⟨k, x⟩ := d
    obtain ⟨hr, hrest⟩ := h
    by_cases hk : k = i
    · rw [hk, part_cons_self] at he
      cases he
      exact ⟨s, hP, hr⟩
    · rw [part_cons_of_ne hk] at he
      exact ih hrest he (hothers k x s List.mem_cons_self hk hP) fun k' x' s' h =>
        hothers k' x' s' (List.mem_cons_of_mem _ h)

end

/-! ## Jobs -/

section
variable {Waits : F.Call → Prop} {Acts : J → Sigma F.Reply → List (Sigma F.Reply) → Prop} {Free : J → Prop}

/-- The calls of some jobs, one after another. -/
inductive Jobs (Waits : F.Call → Prop) (Acts : J → Sigma F.Reply → List (Sigma F.Reply) → Prop) (Free : J → Prop) :
    List J → List (Sigma F.Reply) → Prop
  | nil : Jobs Waits Acts Free [] []
  | wait {e : Sigma F.Reply} {js : List J} {es : List (Sigma F.Reply)} : Waits e.1 → Jobs Waits Acts Free js es →
      Jobs Waits Acts Free js (e :: es)
  | free {j : J} {js : List J} {es : List (Sigma F.Reply)} : Free j → Jobs Waits Acts Free js es →
      Jobs Waits Acts Free (j :: js) es
  | act {j : J} {e : Sigma F.Reply} {js : List J} {es : List (Sigma F.Reply)} : Acts j e es →
      Jobs Waits Acts Free js es →
      Jobs Waits Acts Free (j :: js) (e :: es)

namespace Jobs

variable {js js' : List J} {e : Sigma F.Reply} {es es' : List (Sigma F.Reply)}

theorem waits (hes : ∀ e ∈ es, Waits e.1) (h : Jobs Waits Acts Free js es') : Jobs Waits Acts Free js (es ++ es') := by
  induction es with
  | nil => exact h
  | cons e es ih => exact .wait (hes e List.mem_cons_self) (ih fun e' he' => hes e' (List.mem_cons_of_mem e he'))

theorem append (hmore : ∀ j e es es', Acts j e es → Acts j e (es ++ es')) (h : Jobs Waits Acts Free js es)
    (h' : Jobs Waits Acts Free js' es') : Jobs Waits Acts Free (js ++ js') (es ++ es') := by
  induction h with
  | nil => exact h'
  | wait he _ ih => exact .wait he ih
  | free hj _ ih => exact .free hj ih
  | act hj _ ih => exact .act (hmore _ _ _ _ hj) ih

/-- Where nothing was asked, nobody had to. -/
theorem all_free (h : Jobs Waits Acts Free js []) : ∀ j ∈ js, Free j := by
  generalize hes : ([] : List (Sigma F.Reply)) = es at h
  induction h with
  | nil => simp
  | wait _ _ _ => cases hes
  | free hj _ ih => exact List.forall_mem_cons.2 ⟨hj, ih hes⟩
  | act _ _ _ => cases hes

/-- The first call is a wait, or the act of a job behind some that did not act. -/
theorem first (h : Jobs Waits Acts Free js (e :: es)) : ∃ idle rest, js = idle ++ rest ∧ (∀ j ∈ idle, Free j) ∧
    ((Waits e.1 ∧ Jobs Waits Acts Free rest es) ∨
      ∃ j rest', rest = j :: rest' ∧ Acts j e es ∧ Jobs Waits Acts Free rest' es) := by
  generalize hes : e :: es = es₀ at h
  induction h with
  | nil => cases hes
  | @wait _ js _ he hrest _ =>
    cases hes
    exact ⟨[], js, rfl, by simp, Or.inl ⟨he, hrest⟩⟩
  | @free j _ _ hj _ ih =>
    obtain ⟨idle, rest, hjs, hidle, h⟩ := ih hes
    exact ⟨j :: idle, rest, by rw [hjs]; rfl, List.forall_mem_cons.2 ⟨hj, hidle⟩, h⟩
  | @act j _ js _ hj hrest _ =>
    cases hes
    exact ⟨[], j :: js, rfl, by simp, Or.inr ⟨j, js, rfl, hj, hrest⟩⟩

end Jobs

/-- Some that are free to be left out are left out. -/
inductive Thinned (Free : J → Prop) : List J → List J → Prop
  | nil : Thinned Free [] []
  | keep {j : J} {js js' : List J} : Thinned Free js js' → Thinned Free (j :: js) (j :: js')
  | drop {j : J} {js js' : List J} : Free j → Thinned Free js js' → Thinned Free (j :: js) js'

namespace Thinned

variable {js js' js'' idle : List J}

theorem skip (hidle : ∀ j ∈ idle, Free j) (h : Thinned Free js js') : Thinned Free (idle ++ js) js' := by
  induction idle with
  | nil => exact h
  | cons j idle ih => exact .drop (hidle j List.mem_cons_self) (ih fun j' h => hidle j' (List.mem_cons_of_mem j h))

theorem all (h : ∀ j ∈ js, Free j) : Thinned Free js [] := by
  have hskip : Thinned Free (js ++ []) [] := skip h .nil
  rwa [List.append_nil] at hskip

theorem trans (h : Thinned Free js js') (h' : Thinned Free js' js'') : Thinned Free js js'' := by
  induction h generalizing js'' with
  | nil => exact h'
  | keep _ ih =>
    cases h' with
    | keep h' => exact .keep (ih h')
    | drop hj h' => exact .drop hj (ih h')
  | drop hj _ ih => exact .drop hj (ih h')

end Thinned

end

/-! ## One after another -/

/-- Each of them takes one step. -/
def Chain (Step : ι × J → τ → τ → Prop) : τ → List (ι × J) → τ → Prop
  | t, [], t' => t' = t
  | t, d :: ds, t' => ∃ t₁, Step d t t₁ ∧ Chain Step t₁ ds t'

/-- **Whatever the order of the calls, the jobs are done one after another**, each at the moment of its act: in the
order of each party, and all of them but for some that were free not to act. -/
theorem attended_chain [DecidableEq ι] {Waits : F.Call → Prop}
    {Acts : ι → J → Sigma F.Reply → List (Sigma F.Reply) → Prop}
    {Free : J → Prop} {H : Handler F σ} {T : σ → τ} {Step : ι × J → τ → τ → Prop}
    {g : List (ι × Sigma F.Reply)} {s s' : σ}
    (hwait : ∀ c s, Waits c → T (H.reply c s).2 = T s)
    (hact : ∀ i j c s rest, (i, ⟨c, (H.reply c s).1⟩) :: rest <:+ g → Attended H (H.reply c s).2 rest s' →
      Acts i j ⟨c, (H.reply c s).1⟩ (part i rest) → Step (i, j) (T s) (T (H.reply c s).2))
    (hg : Attended H s g s') {jobs : ι → List J} (hjobs : ∀ i, Jobs Waits (Acts i) Free (jobs i) (part i g)) :
    ∃ ds, Chain Step (T s) ds (T s') ∧ ∀ i, Thinned Free (jobs i) (part i ds) := by
  induction g generalizing s jobs with
  | nil =>
    obtain rfl : s' = s := hg
    exact ⟨[], rfl, fun i => .all (hjobs i).all_free⟩
  | cons e g ih =>
    obtain ⟨i, c, r⟩ := e
    obtain ⟨hr, hrest⟩ := hg
    have hrec : ∀ {jobs : ι → List J}, (∀ i, Jobs Waits (Acts i) Free (jobs i) (part i g)) →
        ∃ ds, Chain Step (T (H.reply c s).2) ds (T s') ∧ ∀ i, Thinned Free (jobs i) (part i ds) :=
      ih (fun i j c s rest h => hact i j c s rest (h.trans (List.suffix_cons _ _))) hrest
    have hi := hjobs i
    rw [part_cons_self] at hi
    obtain ⟨idle, rest, hsplit, hidle, hfirst⟩ := hi.first
    -- what is left to do once this call is answered
    have hleft : ∀ {rest' : List J}, Jobs Waits (Acts i) Free rest' (part i g) →
        ∀ k, Jobs Waits (Acts k) Free (Function.update jobs i rest' k) (part k g) := by
      intro rest' hrest' k
      by_cases hk : k = i
      · rw [hk, Function.update_self]
        exact hrest'
      · have hk' := hjobs k
        rw [part_cons_of_ne (Ne.symm hk)] at hk'
        rwa [Function.update_of_ne hk]
    rcases hfirst with ⟨hwaits, hjs⟩ | ⟨j, rest', rfl, hacts, hjs⟩
    · obtain ⟨ds, hchain, hthin⟩ := hrec (hleft hjs)
      rw [hwait c s hwaits] at hchain
      refine ⟨ds, hchain, fun k => ?_⟩
      have hk := hthin k
      by_cases hki : k = i
      · rw [hki, Function.update_self] at hk
        rw [hki, hsplit]
        exact hk.skip hidle
      · rwa [Function.update_of_ne hki] at hk
    · obtain ⟨ds, hchain, hthin⟩ := hrec (hleft hjs)
      have hr : (H.reply c s).1 = r := hr
      refine ⟨(i, j) :: ds, ⟨_, hact i j c s g ?_ hrest ?_, hchain⟩, fun k => ?_⟩
      · simp only [hr, List.suffix_refl]
      · rwa [hr]
      have hk := hthin k
      by_cases hki : k = i
      · rw [hki, Function.update_self] at hk
        rw [hki, hsplit, part_cons_self]
        exact (Thinned.keep hk).skip hidle
      · rw [Function.update_of_ne hki] at hk
        rwa [part_cons_of_ne (Ne.symm hki)]

end Effect
