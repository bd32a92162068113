import Mathlib.Logic.Function.Basic
import RemotefsSsh.Lib.FileTree

/-!
# Changing a tree one entry at a time

A directory is made where nothing stands; a file or a link, an empty directory, or all that stands below a place is
taken away. Whoever asks for a change is told that it was made, or is told nothing: then it was not made, or it was,
or all that was to be taken away is gone in part (`Outcome`).

Along a run of such changes the tree stays closed, and every place is as it was but for the changes that touch it
(`Run.kept`). So a directory that was made is there until a change takes it away (`Run.made`), and what was taken away
is gone until a directory is made in its place (`Run.gone`).
-/

namespace FileTree

variable {ν α : Type}

inductive ChangeKind where
  | mkdir
  | unlink
  | rmdir
  /-- With all that is below. -/
  | prune
deriving DecidableEq, Repr

structure Change (ν : Type) where
  kind : ChangeKind
  place : Place ν

/-- Something at `p` and below may be gone, and all else is as it was. -/
structure Pruned (t t' : Tree ν α) (p : Place ν) : Prop where
  kept : ∀ q, ¬ p <+: q → t' q = t q
  below : ∀ q, p <+: q → t' q = t q ∨ t' q = none
  closed : Closed t'

namespace Change

/-- It can be made. -/
def Ready (t : Tree ν α) : Change ν → Prop
  | ⟨.mkdir, p⟩ => t p = none ∧ t p.dropLast = some .dir
  | ⟨.unlink, p⟩ => t p ≠ none ∧ t p ≠ some .dir
  | ⟨.rmdir, p⟩ => p ≠ [] ∧ t p = some .dir ∧ ∀ n, t (p ++ [n]) = none
  | ⟨.prune, p⟩ => p ≠ [] ∧ t p ≠ none

/-- It may change what stands at `q`. -/
def Touches (q : Place ν) (c : Change ν) : Prop := if c.kind = .prune then c.place <+: q else q = c.place

theorem touches_place (c : Change ν) : c.Touches c.place := by
  unfold Touches
  split
  · exact List.prefix_rfl
  · rfl

section
variable [DecidableEq ν]

def effect (t : Tree ν α) (c : Change ν) : Tree ν α :=
  match c.kind with
  | .mkdir => Function.update t c.place (some .dir)
  | .unlink | .rmdir => Function.update t c.place none
  | .prune => without t c.place

inductive Outcome (t : Tree ν α) (c : Change ν) : Bool → Tree ν α → Prop
  | made : c.Ready t → Outcome t c true (c.effect t)
  | nothing : Outcome t c false t
  /-- It was made, but nobody was told. -/
  | unheard : c.Ready t → Outcome t c false (c.effect t)
  | partly {t' : Tree ν α} : c.kind = .prune → Pruned t t' c.place → Outcome t c false t'

variable {t t' : Tree ν α} {c : Change ν} {q : Place ν} {ok : Bool}

theorem effect_kept (h : ¬ c.Touches q) : c.effect t q = t q := by
  obtain ⟨kind, p⟩ := c
  cases kind with
  | mkdir => exact Function.update_of_ne h _ _
  | unlink => exact Function.update_of_ne h _ _
  | rmdir => exact Function.update_of_ne h _ _
  | prune => exact without_of_not h

/-- What is touched, and is not made, is gone. -/
theorem effect_gone (h : c.Touches q) (hc : c.kind ≠ .mkdir) : c.effect t q = none := by
  obtain ⟨kind, p⟩ := c
  cases kind with
  | mkdir => exact absurd rfl hc
  | unlink => rw [show q = p from h]; exact Function.update_self ..
  | rmdir => rw [show q = p from h]; exact Function.update_self ..
  | prune => exact without_below h

/-- What is taken away is not above anything that is left. -/
theorem closed_taken (hc : Closed t) {p : Place ν} (hp : p ≠ []) (hempty : ∀ n, t (p ++ [n]) = none) :
    Closed (Function.update t p none) := by
  refine ⟨by rw [Function.update_of_ne (Ne.symm hp), hc.root], fun r n hr => ?_⟩
  by_cases hrn : r ++ [n] = p
  · rw [hrn, Function.update_self] at hr
    exact absurd rfl hr
  · rw [Function.update_of_ne hrn] at hr
    rw [Function.update_of_ne, hc.above r n hr]
    rintro rfl
    exact hr (hempty n)

theorem closed_made (hc : Closed t) {p : Place ν} (hnone : t p = none) (hdir : t p.dropLast = some .dir) :
    Closed (Function.update t p (some .dir)) := by
  have hstill : ∀ r, t r = some .dir → Function.update t p (some .dir) r = some .dir := by
    intro r hr
    refine (Function.update_of_ne (fun h => ?_) _ _).trans hr
    rw [h, hnone] at hr
    cases hr
  refine ⟨hstill [] hc.root, fun r n hr => hstill r ?_⟩
  by_cases hrn : r ++ [n] = p
  · rwa [← hrn, List.dropLast_concat] at hdir
  · rw [Function.update_of_ne hrn] at hr
    exact hc.above r n hr

theorem effect_closed (hc : Closed t) (h : c.Ready t) : Closed (c.effect t) := by
  obtain ⟨kind, p⟩ := c
  cases kind with
  | mkdir => exact closed_made hc h.1 h.2
  | unlink =>
    refine closed_taken hc ?_ fun n => ?_
    · rintro rfl
      exact h.2 hc.root
    · by_contra hn
      exact h.2 (hc.above p n hn)
  | rmdir => exact closed_taken hc h.1 h.2.2
  | prune => exact hc.without h.1

theorem Outcome.closed (h : Outcome t c ok t') (hc : Closed t) : Closed t' := by
  cases h with
  | made hready => exact effect_closed hc hready
  | nothing => exact hc
  | unheard hready => exact effect_closed hc hready
  | partly _ hpruned => exact hpruned.closed

theorem Outcome.kept (h : Outcome t c ok t') (hq : ¬ c.Touches q) : t' q = t q := by
  cases h with
  | made _ => exact effect_kept hq
  | nothing => rfl
  | unheard _ => exact effect_kept hq
  | partly hkind hpruned =>
    rw [Touches, if_pos hkind] at hq
    exact hpruned.kept q hq

/-- Only a directory can come to be. -/
theorem Outcome.stays_gone (h : Outcome t c ok t') (hq : t q = none) (hc : c ≠ ⟨.mkdir, q⟩) : t' q = none := by
  by_cases htouch : c.Touches q
  · have hkind : c.kind ≠ .mkdir := by
      intro hkind
      rw [Touches, if_neg (by rw [hkind]; simp)] at htouch
      exact hc (by rw [htouch, ← hkind])
    cases h with
    | made _ => exact effect_gone htouch hkind
    | nothing => exact hq
    | unheard _ => exact effect_gone htouch hkind
    | partly hprune hpruned =>
      rw [Touches, if_pos hprune] at htouch
      rcases hpruned.below q htouch with h | h
      · rw [h, hq]
      · exact h
  · rw [h.kept htouch, hq]

/-- Whoever is told nothing may have been told. -/
theorem Outcome.lost (h : Outcome t c ok t') : Outcome t c false t' := by
  cases h with
  | made hready => exact .unheard hready
  | nothing => exact .nothing
  | unheard hready => exact .unheard hready
  | partly hkind hpruned => exact .partly hkind hpruned

end

end Change

/-! ## Runs -/

section
variable [DecidableEq ν] {t t' : Tree ν α} {q : Place ν}

/-- The changes that were asked for, and whether they were acknowledged. -/
def Run : Tree ν α → List (Change ν × Bool) → Tree ν α → Prop
  | t, [], t' => t' = t
  | t, e :: es, t' => ∃ t₁, e.1.Outcome t e.2 t₁ ∧ Run t₁ es t'

theorem Run.closed {es : List (Change ν × Bool)} (h : Run t es t') (hc : Closed t) : Closed t' := by
  induction es generalizing t with
  | nil =>
    obtain rfl : t' = t := h
    exact hc
  | cons e es ih =>
    obtain ⟨t₁, hstep, hrest⟩ := h
    exact ih hrest (hstep.closed hc)

theorem Run.kept {es : List (Change ν × Bool)} (h : Run t es t') (hq : ∀ e ∈ es, ¬ e.1.Touches q) : t' q = t q := by
  induction es generalizing t with
  | nil => rw [show t' = t from h]
  | cons e es ih =>
    obtain ⟨t₁, hstep, hrest⟩ := h
    rw [ih hrest fun e' he' => hq e' (List.mem_cons_of_mem e he'), hstep.kept (hq e List.mem_cons_self)]

theorem Run.stays_none {es : List (Change ν × Bool)} (h : Run t es t') (ht : t q = none)
    (hq : ∀ e ∈ es, e.1 ≠ ⟨.mkdir, q⟩) :
    t' q = none := by
  induction es generalizing t with
  | nil => rw [show t' = t from h, ht]
  | cons e es ih =>
    obtain ⟨t₁, hstep, hrest⟩ := h
    exact ih hrest (hstep.stays_gone ht (hq e List.mem_cons_self)) fun e' he' => hq e' (List.mem_cons_of_mem e he')

theorem Run.split {es es' : List (Change ν × Bool)} (h : Run t (es ++ es') t') : ∃ t₁, Run t es t₁ ∧ Run t₁ es' t' := by
  induction es generalizing t with
  | nil => exact ⟨t, rfl, h⟩
  | cons e es ih =>
    obtain ⟨t₁, hstep, hrest⟩ := h
    obtain ⟨t₂, h₁, h₂⟩ := ih hrest
    exact ⟨t₂, ⟨t₁, hstep, h₁⟩, h₂⟩

/-- **A directory that was made is there** until a change touches its place. -/
theorem Run.made {es es' : List (Change ν × Bool)} (h : Run t (es ++ (⟨.mkdir, q⟩, true) :: es') t')
    (hq : ∀ e ∈ es', ¬ e.1.Touches q) : t' q = some .dir := by
  obtain ⟨t₁, -, t₂, hstep, hrest⟩ := h.split
  cases hstep with
  | made _ => exact (Run.kept hrest hq).trans (Function.update_self ..)

/-- **Nothing is made or taken away twice**: in between another change touches the place. -/
theorem Run.once {es es' es'' : List (Change ν × Bool)} {c : Change ν}
    (h : Run t (es ++ (c, true) :: es' ++ (c, true) :: es'') t') : ∃ e ∈ es', e.1.Touches c.place := by
  by_contra hno
  have hno : ∀ e ∈ es', ¬ e.1.Touches c.place := fun e he htouch => hno ⟨e, he, htouch⟩
  rw [List.append_assoc] at h
  obtain ⟨t₁, -, t₂, hfirst, hrest⟩ := h.split
  obtain ⟨t₃, hbetween, t₄, hsecond, -⟩ := Run.split hrest
  have hsame : t₃ c.place = t₂ c.place := Run.kept hbetween hno
  cases hfirst with
  | made hready =>
    cases hsecond with
    | made hready' =>
      obtain ⟨kind, p⟩ := c
      cases kind with
      | mkdir =>
        rw [show Change.effect t₁ ⟨.mkdir, p⟩ p = some .dir from Function.update_self .., hready'.1] at hsame
        cases hsame
      | unlink => exact hready'.1 (hsame.trans (Change.effect_gone (Change.touches_place _) (by simp)))
      | rmdir =>
        rw [Change.effect_gone (Change.touches_place _) (by simp), hready'.2.1] at hsame
        cases hsame
      | prune => exact hready'.2 (hsame.trans (Change.effect_gone (Change.touches_place _) (by simp)))

/-- **What was taken away is gone** until a directory is made in its place. -/
theorem Run.gone {es es' : List (Change ν × Bool)} {c : Change ν} (h : Run t (es ++ (c, true) :: es') t')
    (hc : c.Touches q) (hq : ∀ e ∈ (c, true) :: es', e.1 ≠ ⟨.mkdir, q⟩) : t' q = none := by
  obtain ⟨t₁, -, t₂, hstep, hrest⟩ := h.split
  refine Run.stays_none hrest ?_ fun e he => hq e (List.mem_cons_of_mem _ he)
  cases hstep with
  | made _ =>
    refine Change.effect_gone hc fun hkind => hq _ List.mem_cons_self ?_
    rw [Change.Touches, if_neg (by rw [hkind]; simp)] at hc
    rw [hc, ← hkind]

end

end FileTree
