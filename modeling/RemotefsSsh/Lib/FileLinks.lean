import Mathlib.Logic.Relation
import RemotefsSsh.Lib.FileTree

/-!
# Walks, and what making a link does to a tree

A walker stands in a directory with the steps that are left, and `Next` is what it does next. A path leads somewhere
when its walk comes to an end, so a link that leads somewhere does not lead through itself (`Reaches.own_way`). From
two directories a path leads to the same place exactly when its walks come together (`together_iff`); where there are
no links, that depends on how far it climbs (`together_iff_climb`).

`Ln` says what `ln -s` has done when it succeeds, and `LinkPost` what it is called for.
-/

namespace FileTree

section
variable {ν α : Type}

/-! ## Walks -/

/-- A directory, and the steps that are left. -/
abbrev Stand (ν : Type) := Place ν × List (Step ν)

inductive Next (t : Tree ν α) : Stand ν → Stand ν → Prop
  | dot {d : Place ν} {ss : List (Step ν)} : Next t (d, .dot :: ss) (d, ss)
  | empty {d : Place ν} {ss : List (Step ν)} : Next t (d, .empty :: ss) (d, ss)
  | up {d : Place ν} {ss : List (Step ν)} : Next t (d, .up :: ss) (d.dropLast, ss)
  | enter {d : Place ν} {n : ν} {ss : List (Step ν)} : t (d ++ [n]) = some .dir →
      Next t (d, .name n :: ss) (d ++ [n], ss)
  | follow {d : Place ν} {n : ν} {absolute : Bool} {way ss : List (Step ν)} : t (d ++ [n]) = some (.link absolute way) →
      Next t (d, .name n :: ss) (base absolute d, way ++ ss)

def Walks (t : Tree ν α) : Stand ν → Stand ν → Prop := Relation.ReflTransGen (Next t)

section
variable {t t' : Tree ν α} {d e p q : Place ν} {ss rs : List (Step ν)} {x y : Stand ν}

/-- A path leads where it leads one step on. -/
theorem Next.reaches_iff (h : Next t x y) : Reaches t x.1 x.2 p ↔ Reaches t y.1 y.2 p := by
  cases h with
  | dot =>
    refine ⟨fun h => ?_, .dot⟩
    cases h with | dot h => exact h
  | empty =>
    refine ⟨fun h => ?_, .empty⟩
    cases h with | empty h => exact h
  | up =>
    refine ⟨fun h => ?_, .up⟩
    cases h with | up h => exact h
  | enter hn =>
    refine ⟨fun h => ?_, .enter hn⟩
    cases h with
    | enter _ h => exact h
    | follow hn' _ => rw [hn] at hn'; cases hn'
    | file hn' => rw [hn] at hn'; cases hn'
    | missing hn' => rw [hn] at hn'; cases hn'
  | follow hn =>
    refine ⟨fun h => ?_, .follow hn⟩
    cases h with
    | enter hn' _ => rw [hn] at hn'; cases hn'
    | follow hn' h => rw [hn] at hn'; cases hn'; exact h
    | file hn' => rw [hn] at hn'; cases hn'
    | missing hn' => rw [hn] at hn'; cases hn'

theorem Walks.reaches_iff (h : Walks t x y) : Reaches t x.1 x.2 p ↔ Reaches t y.1 y.2 p := by
  induction h with
  | refl => exact Iff.rfl
  | tail _ hnext ih => exact ih.trans hnext.reaches_iff

/-- More steps behind do not change the ones in front. -/
theorem Next.append (h : Next t x y) (rs : List (Step ν)) : Next t (x.1, x.2 ++ rs) (y.1, y.2 ++ rs) := by
  cases h with
  | dot => exact .dot
  | empty => exact .empty
  | up => exact .up
  | enter hn => exact .enter hn
  | @follow d n absolute way ss hn =>
    have h : Next t (d, .name n :: (ss ++ rs)) (base absolute d, way ++ (ss ++ rs)) := .follow hn
    rwa [← List.append_assoc] at h

/-- The walk of a path that leads somewhere ends. -/
theorem Reaches.acc (h : Reaches t d ss p) : Acc (fun y x => Next t x y) (d, ss) := by
  induction h with
  | done _ =>
    refine .intro _ fun y hy => ?_
    cases hy
  | dot _ ih =>
    refine .intro _ fun y hy => ?_
    cases hy with | dot => exact ih
  | empty _ ih =>
    refine .intro _ fun y hy => ?_
    cases hy with | empty => exact ih
  | up _ ih =>
    refine .intro _ fun y hy => ?_
    cases hy with | up => exact ih
  | enter hn _ ih =>
    refine .intro _ fun y hy => ?_
    cases hy with
    | enter _ => exact ih
    | follow hn' => rw [hn] at hn'; cases hn'
  | follow hn _ ih =>
    refine .intro _ fun y hy => ?_
    cases hy with
    | enter hn' => rw [hn] at hn'; cases hn'
    | follow hn' => rw [hn] at hn'; cases hn'; exact ih
  | file hn =>
    refine .intro _ fun y hy => ?_
    cases hy with
    | enter hn' => rw [hn] at hn'; cases hn'
    | follow hn' => rw [hn] at hn'; cases hn'
  | missing hn =>
    refine .intro _ fun y hy => ?_
    cases hy with
    | enter hn' => rw [hn] at hn'; cases hn'
    | follow hn' => rw [hn] at hn'; cases hn'

/-- A walk that comes to its beginning again, with steps left over, does not end. -/
theorem not_reaches_of_loop (h : Relation.TransGen (Next t) (d, ss) (d, ss ++ rs)) : ¬ Reaches t d ss p := by
  intro hreach
  have hstep : ∀ us, Relation.TransGen (Next t) (d, ss ++ us) (d, ss ++ (rs ++ us)) := by
    intro us
    have hlift : Relation.TransGen (Next t) (d, ss ++ us) (d, ss ++ rs ++ us) :=
      Relation.TransGen.lift (fun x : Stand ν => (x.1, x.2 ++ us)) (fun _ _ hn => Next.append hn us) _ _ h
    rwa [List.append_assoc] at hlift
  have hacc := hreach.acc.transGen
  have key : ∀ x, Acc (Relation.TransGen fun y x => Next t x y) x → ∀ us, x = (d, ss ++ us) → False := by
    intro x hx
    induction hx with
    | intro x _ ih =>
      rintro us rfl
      exact ih _ (Relation.transGen_swap.1 (hstep us)) (rs ++ us) rfl
  exact key _ hacc [] (by rw [List.append_nil])

/-! ## Walks that come together -/

/-- From both directories the walk comes to one directory with the same steps left. -/
def Together (t : Tree ν α) (ss : List (Step ν)) (d e : Place ν) : Prop := ∃ x, Walks t (d, ss) x ∧ Walks t (e, ss) x

/-- A walk ends in the directory that the path leads to, or in the one that has or lacks its last name. -/
theorem Reaches.walks (h : Reaches t d ss p) :
    (t p = some .dir ∧ Walks t (d, ss) (p, [])) ∨
      (t p ≠ some .dir ∧ ∃ c n, p = c ++ [n] ∧ Walks t (d, ss) (c, [.name n])) := by
  have key : ∀ {x y : Stand ν} {p : Place ν}, Next t x y →
      (t p = some .dir ∧ Walks t y (p, [])) ∨ (t p ≠ some .dir ∧ ∃ c n, p = c ++ [n] ∧ Walks t y (c, [.name n])) →
      (t p = some .dir ∧ Walks t x (p, [])) ∨ (t p ≠ some .dir ∧ ∃ c n, p = c ++ [n] ∧ Walks t x (c, [.name n])) := by
    rintro x y p hnext (⟨hdir, hw⟩ | ⟨hno, c, n, rfl, hw⟩)
    · exact Or.inl ⟨hdir, .head hnext hw⟩
    · exact Or.inr ⟨hno, c, n, rfl, .head hnext hw⟩
  induction h with
  | done hd => exact Or.inl ⟨hd, .refl⟩
  | dot _ ih => exact key .dot ih
  | empty _ ih => exact key .empty ih
  | up _ ih => exact key .up ih
  | enter hn _ ih => exact key (.enter hn) ih
  | follow hn _ ih => exact key (.follow hn) ih
  | file hn => exact Or.inr ⟨by rw [hn]; simp, _, _, rfl, .refl⟩
  | missing hn => exact Or.inr ⟨by rw [hn]; simp, _, _, rfl, .refl⟩

/-- **A path leads to the same place from two directories exactly when its walks come together.** -/
theorem together_iff (h : Reaches t d ss p) : Together t ss d e ↔ Reaches t e ss p := by
  constructor
  · rintro ⟨x, hd, he⟩
    exact he.reaches_iff.2 (hd.reaches_iff.1 h)
  · intro h'
    rcases h.walks with ⟨hdir, hd⟩ | ⟨hno, c, n, rfl, hd⟩
    · rcases h'.walks with ⟨-, he⟩ | ⟨hno, -⟩
      · exact ⟨_, hd, he⟩
      · exact absurd hdir hno
    · rcases h'.walks with ⟨hdir, -⟩ | ⟨-, c', n', heq, he⟩
      · exact absurd hdir hno
      · obtain ⟨rfl, hn⟩ := List.append_inj' heq rfl
        cases hn
        exact ⟨_, hd, he⟩

theorem together_self (ss : List (Step ν)) (d : Place ν) : Together t ss d d := ⟨(d, ss), .refl, .refl⟩

/-- How far above its beginning a path climbs. -/
def climb : List (Step ν) → Nat
  | [] => 0
  | .name _ :: ss => climb ss - 1
  | .up :: ss => climb ss + 1
  | _ :: ss => climb ss

/-- Where a path leads when there are no links. -/
def go (d : Place ν) : List (Step ν) → Place ν
  | [] => d
  | .name n :: ss => go (d ++ [n]) ss
  | .up :: ss => go d.dropLast ss
  | _ :: ss => go d ss

theorem Reaches.eq_go (hno : ∀ p absolute way, t p ≠ some (.link absolute way)) (h : Reaches t d ss p) :
    p = go d ss := by
  induction h with
  | done _ => rfl
  | dot _ ih => exact ih
  | empty _ ih => exact ih
  | up _ ih => exact ih
  | enter _ _ ih => exact ih
  | follow hn _ _ => exact absurd hn (hno _ _ _)
  | file _ => rfl
  | missing _ => rfl

/-- Two directories are told apart by what is above the turning point. -/
theorem go_eq_go_iff (ss : List (Step ν)) :
    ∀ d e : Place ν, go d ss = go e ss ↔ d.take (d.length - climb ss) = e.take (e.length - climb ss) := by
  induction ss with
  | nil => intro d e; simp [go, climb]
  | cons s ss ih =>
    intro d e
    cases s with
    | dot => exact ih d e
    | empty => exact ih d e
    | up =>
      have htake : ∀ l : Place ν, l.dropLast.take (l.dropLast.length - climb ss) = l.take
        (l.length - (climb ss + 1)) := by
        intro l
        rw [List.dropLast_eq_take, List.take_take, List.length_take]
        congr 1
        omega
      unfold go climb
      rw [ih, htake, htake]
    | name n =>
      unfold go climb
      rw [ih]
      cases hc : climb ss with
      | zero =>
        have hall : ∀ l : Place ν, l.take (l.length - 0) = l := fun l => List.take_length
        rw [hall, hall, Nat.zero_sub, hall, hall, List.append_left_inj]
      | succ k =>
        have htake : ∀ l : Place ν, (l ++ [n]).take ((l ++ [n]).length - (k + 1)) = l.take (l.length - k) := by
          intro l
          rw [List.length_append, List.length_singleton, Nat.add_sub_add_right,
            List.take_append_of_le_length (Nat.sub_le _ _)]
        rw [htake, htake, Nat.add_sub_cancel]

/-- **Without links, a path leads to the same place from two directories exactly when they lie below one directory,
as far up as the path climbs.** -/
theorem together_iff_climb (hno : ∀ p absolute way, t p ≠ some (.link absolute way)) (h : Reaches t d ss p)
    (h' : Reaches t e ss q) :
    Together t ss d e ↔ d.take (d.length - climb ss) = e.take (e.length - climb ss) := by
  rw [together_iff h, ← go_eq_go_iff, ← h.eq_go hno, ← h'.eq_go hno]
  exact ⟨fun hp => hp.det h', fun hpq => hpq ▸ h'⟩

/-! ## Making a link -/

/-- A link has been put where nothing was. -/
structure Linked (t t' : Tree ν α) (l : Place ν) (absolute : Bool) (way : List (Step ν)) : Prop where
  fresh : t l = none
  link : t' l = some (.link absolute way)
  elsewhere : ∀ p, p ≠ l → t' p = t p

/-- The last name of the path, and the directory it is looked up in. -/
def EntryAt (t : Tree ν α) (ss : List (Step ν)) (e : Place ν) (n : ν) : Prop :=
  ∃ c slash, lastName ss = some (c, n, slash) ∧ Reaches t [] c e ∧ t e = some .dir

/-- What `ln -s` has done when it succeeds: in a directory the link has the last name of its way. -/
inductive Ln (t t' : Tree ν α) (dest : List (Step ν)) (absolute : Bool) (way : List (Step ν)) : Prop
  | onto {e : Place ν} {n : ν} : ¬ Opens t dest → EntryAt t dest e n → Linked t t' (e ++ [n]) absolute way →
      Ln t t' dest absolute way
  | into {d : Place ν} {c : List (Step ν)} {n : ν} {slash : Bool} : Reaches t [] dest d → t d = some .dir →
      lastName way = some (c, n, slash) → Linked t t' (d ++ [n]) absolute way → Ln t t' dest absolute way

/-- There is a new link at the end of `dest`, and it leads to the place that `checked` leads to. -/
def LinkPost (t t' : Tree ν α) (dest checked : List (Step ν)) : Prop :=
  ∃ e n absolute way p, EntryAt t dest e n ∧ Linked t t' (e ++ [n]) absolute way ∧
    Reaches t' (base absolute e) way p ∧ Reaches t' [] checked p

section
variable {dest checked way : List (Step ν)} {absolute : Bool} {l : Place ν} {n m : ν}

theorem EntryAt.det (h : EntryAt t ss d n) (h' : EntryAt t ss e m) : d = e ∧ n = m := by
  obtain ⟨c, slash, hlast, hd, -⟩ := h
  obtain ⟨c', slash', hlast', he, -⟩ := h'
  rw [hlast] at hlast'
  cases hlast'
  exact ⟨hd.det he, rfl⟩

/-- Where nothing is, no directory is. -/
theorem EntryAt.not_opens (hc : Closed t) (h : EntryAt t ss e n) (hnone : t (e ++ [n]) = none) : ¬ Opens t ss := by
  rintro ⟨p, hp, hdir⟩
  obtain ⟨c, slash, hlast, he, -⟩ := h
  obtain ⟨k, rfl, -⟩ := lastName_split hlast
  obtain ⟨e', he', -, hrest⟩ := hp.split hc hc.root rfl (Or.inl (List.cons_ne_nil _ _))
  rw [he.det he'] at hnone
  exact stuck_at hnone hrest hdir

/-- What was there is reached as before. -/
theorem Linked.reaches (h : Linked t t' l absolute way) (hp : t p ≠ none) (hr : Reaches t d ss p) :
    Reaches t' d ss p := by
  have hkept : ∀ p i, t p = some i → t' p = some i := by
    intro p i hi
    rw [h.elsewhere p, hi]
    rintro rfl
    rw [h.fresh] at hi
    cases hi
  induction hr with
  | done hd => exact .done (hkept _ _ hd)
  | dot _ ih => exact .dot (ih hp)
  | empty _ ih => exact .empty (ih hp)
  | up _ ih => exact .up (ih hp)
  | enter hn _ ih => exact .enter (hkept _ _ hn) (ih hp)
  | follow hn _ ih => exact .follow (hkept _ _ hn) (ih hp)
  | file hn => exact .file (hkept _ _ hn)
  | missing hn => exact absurd hn hp

/-- A walk is as it was before, or it comes to the new link. -/
theorem Linked.before_or_through {n : ν} (h : Linked t t' (e ++ [n]) absolute way) (hr : Reaches t' d ss p) :
    Reaches t d ss p ∨ ∃ rs, Relation.TransGen (Next t') (d, ss) (base absolute e, way ++ rs) := by
  have hold : ∀ {p i}, t' p = some i → (∀ a w, i ≠ .link a w) → t p = some i := by
    intro p i hi hno
    rw [← h.elsewhere p, hi]
    rintro rfl
    rw [h.link] at hi
    cases hi
    exact hno _ _ rfl
  have key : ∀ {x y : Stand ν}, Next t' x y → (Reaches t y.1 y.2 p → Reaches t x.1 x.2 p) →
      (Reaches t y.1 y.2 p ∨ ∃ rs, Relation.TransGen (Next t') y (base absolute e, way ++ rs)) →
      Reaches t x.1 x.2 p ∨ ∃ rs, Relation.TransGen (Next t') x (base absolute e, way ++ rs) := by
    rintro x y hnext hback (hy | ⟨rs, hy⟩)
    · exact Or.inl (hback hy)
    · exact Or.inr ⟨rs, .head hnext hy⟩
  induction hr with
  | done hd => exact Or.inl (.done (hold hd (by simp)))
  | dot _ ih => exact key .dot .dot (ih key)
  | empty _ ih => exact key .empty .empty (ih key)
  | up _ ih => exact key .up .up (ih key)
  | enter hn _ ih => exact key (.enter hn) (.enter (hold hn (by simp))) (ih key)
  | @follow d p m a w ss hn hrest ih =>
    by_cases hl : d ++ [m] = e ++ [n]
    · obtain ⟨rfl, -⟩ := List.append_inj' hl rfl
      rw [hl, h.link] at hn
      cases hn
      have hself : t' (d ++ [m]) = some (.link absolute way) := by rw [hl, h.link]
      exact Or.inr ⟨ss, .single (.follow hself)⟩
    · have hn' : t (d ++ [m]) = some (.link a w) := by rw [← h.elsewhere _ hl, hn]
      exact key (.follow hn) (.follow hn') (ih key)
  | file hn => exact Or.inl (.file (hold hn (by simp)))
  | @missing d m hn =>
    have hne : d ++ [m] ≠ e ++ [n] := by
      intro hl
      rw [hl, h.link] at hn
      cases hn
    exact Or.inl (.missing (by rw [← h.elsewhere _ hne, hn]))

/-- **A link that leads somewhere does not lead through itself.** -/
theorem Linked.own_way {n : ν} (h : Linked t t' (e ++ [n]) absolute way) (hr : Reaches t' (base absolute e) way p) :
    Reaches t (base absolute e) way p := by
  rcases h.before_or_through hr with hr | ⟨rs, hloop⟩
  · exact hr
  · exact absurd hr (not_reaches_of_loop hloop)

/-- **What `ln -s` has done is what it is called for exactly when no directory was in the way and the link's way leads
from its directory to what was checked.** -/
theorem Ln.post_iff (hc : Closed t) (hq : Reaches t [] checked q) (hthere : t q ≠ none)
    (h : Ln t t' dest absolute way) :
    LinkPost t t' dest checked ↔ ¬ Opens t dest ∧ ∃ e n, EntryAt t dest e n ∧ Reaches t (base absolute e) way q := by
  constructor
  · rintro ⟨e, n, a, w, p, hentry, hlinked, hway, hchecked⟩
    refine ⟨hentry.not_opens hc hlinked.fresh, e, n, hentry, ?_⟩
    cases h with
    | onto _ hentry' hlinked' =>
      obtain ⟨rfl, rfl⟩ := hentry.det hentry'
      have hsame := hlinked.link.symm.trans hlinked'.link
      cases hsame
      obtain rfl := hchecked.det (hlinked.reaches hthere hq)
      exact hlinked.own_way hway
    | into hd hdir _ _ => exact absurd ⟨_, hd, hdir⟩ (hentry.not_opens hc hlinked.fresh)
  · rintro ⟨hopens, e, n, hentry, hway⟩
    cases h with
    | onto _ hentry' hlinked =>
      obtain ⟨rfl, rfl⟩ := hentry.det hentry'
      exact ⟨e, n, absolute, way, q, hentry, hlinked, hlinked.reaches hthere hway, hlinked.reaches hthere hq⟩
    | into hd hdir _ _ => exact absurd ⟨_, hd, hdir⟩ hopens

end

end

end

end FileTree
