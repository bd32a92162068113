import Mathlib.Data.List.Infix

/-!
# Trees of files and the paths into them

A place is the list of names that lead to it from the root, a tree says what stands at each place. A path is
a list of steps; `Reaches` follows every symbolic link on it, `Names` all but one at its end.

A path is walked from place to place, so it leads to the same place in two trees that agree on the
directories and links on its way (`Reaches.mono`). Where they agree up to what one of them has lost, it
leads to the same place in both or to no directory in the other (`Reaches.kept_or_stuck`).
-/

namespace FileTree

inductive Step (ν : Type) where
  | name (n : ν)
  | dot
  | up
  /-- Between two slashes, or behind the last. -/
  | empty
deriving DecidableEq

inductive Item (ν α : Type) where
  | file (data : α)
  | dir
  | link (absolute : Bool) (way : List (Step ν))

abbrev Place (ν : Type) := List ν

abbrev Tree (ν α : Type) := Place ν → Option (Item ν α)

section
variable {ν α : Type}

/-- Everything stands in a directory, below the root. -/
structure Closed (t : Tree ν α) : Prop where
  root : t [] = some .dir
  above : ∀ p n, t (p ++ [n]) ≠ none → t p = some .dir

/-- Nothing stands deeper than some depth. -/
def Bounded (t : Tree ν α) : Prop := ∃ k, ∀ p, t p ≠ none → p.length ≤ k

/-- Where a link is read from. -/
def base (absolute : Bool) (d : Place ν) : Place ν := if absolute then [] else d

/-- From the directory `d` the path leads to `p`, where nothing need stand. -/
inductive Reaches (t : Tree ν α) : Place ν → List (Step ν) → Place ν → Prop
  | done {d : Place ν} : t d = some .dir → Reaches t d [] d
  | dot {d p : Place ν} {ss : List (Step ν)} : Reaches t d ss p → Reaches t d (.dot :: ss) p
  | empty {d p : Place ν} {ss : List (Step ν)} : Reaches t d ss p → Reaches t d (.empty :: ss) p
  | up {d p : Place ν} {ss : List (Step ν)} : Reaches t d.dropLast ss p → Reaches t d (.up :: ss) p
  | enter {d p : Place ν} {n : ν} {ss : List (Step ν)} : t (d ++ [n]) = some .dir → Reaches t (d ++ [n]) ss p →
      Reaches t d (.name n :: ss) p
  | follow {d p : Place ν} {n : ν} {absolute : Bool} {way ss : List (Step ν)} :
      t (d ++ [n]) = some (.link absolute way) → Reaches t (base absolute d) (way ++ ss) p →
      Reaches t d (.name n :: ss) p
  | file {d : Place ν} {n : ν} {data : α} : t (d ++ [n]) = some (.file data) → Reaches t d [.name n] (d ++ [n])
  | missing {d : Place ν} {n : ν} : t (d ++ [n]) = none → Reaches t d [.name n] (d ++ [n])

/-- The path leads to a directory. -/
def Opens (t : Tree ν α) (ss : List (Step ν)) : Prop := ∃ d, Reaches t [] ss d ∧ t d = some .dir

/-! ## Closed trees -/

section
variable {t : Tree ν α} {p q : Place ν}

/-- What something stands below is a directory. -/
theorem Closed.dir_above (hc : Closed t) (hpq : p <+: q) (hne : p ≠ q) (hq : t q ≠ none) : t p = some .dir := by
  obtain ⟨r, rfl⟩ := hpq
  induction r using List.reverseRecOn with
  | nil => exact absurd (List.append_nil p).symm hne
  | append_singleton r n ih =>
    rw [← List.append_assoc] at hq
    have hr := hc.above _ n hq
    by_cases hnil : r = []
    · rwa [hnil, List.append_nil] at hr
    · refine ih (fun h => hnil ?_) (by rw [hr]; simp)
      exact (List.append_right_eq_self.1 h.symm)

theorem Closed.dir_down_to (hc : Closed t) (hpq : p <+: q) (hq : t q = some .dir) : t p = some .dir := by
  by_cases hne : p = q
  · rwa [hne]
  · exact hc.dir_above hpq hne (by rw [hq]; simp)

theorem Closed.dir_up (hc : Closed t) (hp : t p = some .dir) : t p.dropLast = some .dir :=
  hc.dir_down_to (List.dropLast_prefix p) hp

theorem Closed.dir_base (hc : Closed t) (hp : t p = some .dir) (absolute : Bool) : t (base absolute p) = some .dir := by
  cases absolute with
  | false => exact hp
  | true => exact hc.root

end

/-! ## Walking -/

section
variable {t t' : Tree ν α} {d e p q : Place ν} {ss : List (Step ν)}

theorem Reaches.det (h : Reaches t d ss p) (h' : Reaches t d ss q) : p = q := by
  induction h with
  | done hd => cases h'; rfl
  | dot _ ih => cases h' with | dot h' => exact ih h'
  | empty _ ih => cases h' with | empty h' => exact ih h'
  | up _ ih => cases h' with | up h' => exact ih h'
  | enter hn _ ih =>
    cases h' with
    | enter _ h' => exact ih h'
    | follow hn' _ => rw [hn] at hn'; cases hn'
    | file hn' => rw [hn] at hn'; cases hn'
    | missing hn' => rw [hn] at hn'; cases hn'
  | follow hn _ ih =>
    cases h' with
    | enter hn' _ => rw [hn] at hn'; cases hn'
    | follow hn' h' => rw [hn] at hn'; cases hn'; exact ih h'
    | file hn' => rw [hn] at hn'; cases hn'
    | missing hn' => rw [hn] at hn'; cases hn'
  | file hn =>
    cases h' with
    | enter hn' _ => rw [hn] at hn'; cases hn'
    | follow hn' _ => rw [hn] at hn'; cases hn'
    | file _ => rfl
    | missing _ => rfl
  | missing hn =>
    cases h' with
    | enter hn' _ => rw [hn] at hn'; cases hn'
    | follow hn' _ => rw [hn] at hn'; cases hn'
    | file _ => rfl
    | missing _ => rfl

theorem Reaches.append {a b : List (Step ν)} (h : Reaches t d a e) (he : t e = some .dir) (h' : Reaches t e b p) :
    Reaches t d (a ++ b) p := by
  induction h with
  | done _ => exact h'
  | dot _ ih => exact .dot (ih he h')
  | empty _ ih => exact .empty (ih he h')
  | up _ ih => exact .up (ih he h')
  | enter hn _ ih => exact .enter hn (ih he h')
  | follow hn _ ih =>
    have hrest := ih he h'
    rw [List.append_assoc] at hrest
    exact .follow hn hrest
  | file hn => rw [hn] at he; cases he
  | missing hn => rw [hn] at he; cases he

/-- A path that goes on, or ends in a directory, goes through directories. -/
theorem Reaches.split (hc : Closed t) (hd : t d = some .dir) (h : Reaches t d ss p) {a b : List (Step ν)}
    (hss : ss = a ++ b) (hb : b ≠ [] ∨ t p = some .dir) : ∃ e, Reaches t d a e ∧ t e = some .dir ∧ Reaches t e b p := by
  induction h generalizing a with
  | done hd' =>
    obtain ⟨rfl, rfl⟩ := List.append_eq_nil_iff.1 hss.symm
    exact ⟨_, .done hd', hd', .done hd'⟩
  | dot h ih =>
    cases a with
    | nil => cases hss; exact ⟨_, .done hd, hd, .dot h⟩
    | cons s a =>
      cases hss
      obtain ⟨e, he, hdir, hrest⟩ := ih hd rfl hb
      exact ⟨e, .dot he, hdir, hrest⟩
  | empty h ih =>
    cases a with
    | nil => cases hss; exact ⟨_, .done hd, hd, .empty h⟩
    | cons s a =>
      cases hss
      obtain ⟨e, he, hdir, hrest⟩ := ih hd rfl hb
      exact ⟨e, .empty he, hdir, hrest⟩
  | up h ih =>
    cases a with
    | nil => cases hss; exact ⟨_, .done hd, hd, .up h⟩
    | cons s a =>
      cases hss
      obtain ⟨e, he, hdir, hrest⟩ := ih (hc.dir_up hd) rfl hb
      exact ⟨e, .up he, hdir, hrest⟩
  | enter hn h ih =>
    cases a with
    | nil => cases hss; exact ⟨_, .done hd, hd, .enter hn h⟩
    | cons s a =>
      cases hss
      obtain ⟨e, he, hdir, hrest⟩ := ih hn rfl hb
      exact ⟨e, .enter hn he, hdir, hrest⟩
  | follow hn h ih =>
    cases a with
    | nil => cases hss; exact ⟨_, .done hd, hd, .follow hn h⟩
    | cons s a =>
      cases hss
      obtain ⟨e, he, hdir, hrest⟩ := ih (hc.dir_base hd _) (List.append_assoc ..).symm hb
      exact ⟨e, .follow hn he, hdir, hrest⟩
  | file hn =>
    cases a with
    | nil => cases hss; exact ⟨_, .done hd, hd, .file hn⟩
    | cons s a =>
      obtain ⟨-, rfl⟩ := List.append_eq_nil_iff.1 (List.cons.inj hss).2.symm
      rcases hb with hb | hb
      · exact absurd rfl hb
      · rw [hn] at hb
        cases hb
  | missing hn =>
    cases a with
    | nil => cases hss; exact ⟨_, .done hd, hd, .missing hn⟩
    | cons s a =>
      obtain ⟨-, rfl⟩ := List.append_eq_nil_iff.1 (List.cons.inj hss).2.symm
      rcases hb with hb | hb
      · exact absurd rfl hb
      · rw [hn] at hb
        cases hb

theorem Reaches.not_link (h : Reaches t d ss p) {absolute : Bool} {way : List (Step ν)} :
    t p ≠ some (.link absolute way) := by
  induction h with
  | done hd => rw [hd]; simp
  | dot _ ih => exact ih
  | empty _ ih => exact ih
  | up _ ih => exact ih
  | enter _ _ ih => exact ih
  | follow _ _ ih => exact ih
  | file hn => rw [hn]; simp
  | missing hn => rw [hn]; simp

/-- Nothing is reached through a name that nothing has. -/
theorem stuck_at {n : ν} (hn : t (d ++ [n]) = none) (h : Reaches t d (.name n :: ss) q) : t q ≠ some .dir := by
  cases h with
  | enter h' _ => rw [hn] at h'; cases h'
  | follow h' _ => rw [hn] at h'; cases h'
  | file h' => rw [hn] at h'; cases h'
  | missing _ => rw [hn]; simp

/-! ## Trees that agree on the way -/

/-- The directory or link at `p`, if there is one, is there in `t'` as well. -/
def KeptAt (t t' : Tree ν α) (p : Place ν) : Prop :=
  ∀ i, t p = some i → (∀ data, i ≠ .file data) → t' p = some i

theorem KeptAt.dir (h : KeptAt t t' p) (hp : t p = some .dir) : t' p = some .dir := h _ hp (by simp)

theorem KeptAt.link {absolute : Bool} {way : List (Step ν)} (h : KeptAt t t' p) (hp : t p = some (.link absolute way)) :
    t' p = some (.link absolute way) := h _ hp (by simp)

/-- Without what stands at `x` and below. -/
def without [DecidableEq ν] (t : Tree ν α) (x : Place ν) : Tree ν α := fun p => if x <+: p then none else t p

theorem Reaches.mono (hkept : ∀ p, KeptAt t t' p) (h : Reaches t d ss p) (hp : t p = some .dir) :
    Reaches t' d ss p := by
  induction h with
  | done hd => exact .done ((hkept _).dir hd)
  | dot _ ih => exact .dot (ih hp)
  | empty _ ih => exact .empty (ih hp)
  | up _ ih => exact .up (ih hp)
  | enter hn _ ih => exact .enter ((hkept _).dir hn) (ih hp)
  | follow hn _ ih => exact .follow ((hkept _).link hn) (ih hp)
  | file hn => rw [hn] at hp; cases hp
  | missing hn => rw [hn] at hp; cases hp

end

section
variable [DecidableEq ν] {t t' : Tree ν α} {d p q x : Place ν} {ss : List (Step ν)}

theorem without_of_not (h : ¬ x <+: p) : without t x p = t p := if_neg h

theorem without_below (h : x <+: p) : without t x p = none := if_pos h

theorem Closed.without (hc : Closed t) (hx : x ≠ []) : Closed (without t x) := by
  refine ⟨?_, fun p n h => ?_⟩
  · rw [without_of_not (by rwa [List.prefix_nil])]
    exact hc.root
  · by_cases hpre : x <+: p ++ [n]
    · rw [without_below hpre] at h
      exact absurd rfl h
    · rw [without_of_not hpre] at h
      rw [without_of_not fun hp => hpre (hp.trans (List.prefix_append p [n]))]
      exact hc.above p n h

/-- Where a directory or a link to one stands. -/
def OpensAt (t : Tree ν α) (x : Place ν) : Prop :=
  t x = some .dir ∨ ∃ c n absolute way f, x = c ++ [n] ∧ t c = some .dir ∧ t x = some (.link absolute way) ∧
    Reaches t (base absolute c) way f ∧ t f = some .dir

omit [DecidableEq ν] in
/-- A directory stands below no place but one that opens. -/
theorem Closed.opensAt (hc : Closed t) (hpre : x <+: p) (hp : t p = some .dir) : OpensAt t x :=
  Or.inl (hc.dir_down_to hpre hp)

/-- A way to a directory leads through `x` only when `x` opens. -/
theorem Reaches.avoid (hc : Closed t) (hd : t d = some .dir) (h : Reaches t d ss p)
    (hp : t p = some .dir) (x : Place ν) :
    Reaches (FileTree.without t x) d ss p ∨ OpensAt t x := by
  induction h with
  | @done d hd' =>
    by_cases hpre : x <+: d
    · exact Or.inr (hc.opensAt hpre hd)
    · exact Or.inl (.done (by rwa [without_of_not hpre]))
  | dot _ ih => exact (ih hd hp).imp .dot id
  | empty _ ih => exact (ih hd hp).imp .empty id
  | up _ ih => exact (ih (hc.dir_up hd) hp).imp .up id
  | @enter d _ n _ hn _ ih =>
    by_cases hpre : x <+: d ++ [n]
    · exact Or.inr (hc.opensAt hpre hn)
    · exact (ih hn hp).imp (.enter (by rwa [without_of_not hpre])) id
  | @follow d _ n absolute way ss hn h ih =>
    by_cases hpre : x <+: d ++ [n]
    · right
      by_cases hne : x = d ++ [n]
      · -- the rest of the way goes on from where the link leads
        obtain ⟨f, hf, hfdir, -⟩ := h.split hc (hc.dir_base hd absolute) rfl (Or.inr hp)
        exact Or.inr ⟨d, n, absolute, way, f, hne, hd, by rwa [hne], hf, hfdir⟩
      · exact Or.inl (hc.dir_above hpre hne (by rw [hn]; simp))
    · exact (ih (hc.dir_base hd absolute) hp).imp (.follow (by rwa [without_of_not hpre])) id
  | file hn => rw [hn] at hp; cases hp
  | missing hn => rw [hn] at hp; cases hp

/-- A way to a directory does not need what does not open. -/
theorem Reaches.around (hc : Closed t) (h : Reaches t [] ss p) (hp : t p = some .dir) (hx : ¬ OpensAt t x) :
    Reaches (FileTree.without t x) [] ss p ∧ FileTree.without t x p = some .dir := by
  refine ⟨(h.avoid hc hc.root hp x).resolve_right hx, ?_⟩
  rwa [without_of_not fun hpre => hx (hc.opensAt hpre hp)]

/-- **A tree that has lost what stands at `s` and below, and kept the other directories and links, is walked
the same way, or the way has led through `s` and leads to no directory any more.** -/
theorem Reaches.kept_or_stuck {s : Place ν} (hkept : ∀ p, ¬ s <+: p → KeptAt t t' p)
    (hgone : ∀ p, s <+: p → t' p = none)
    (h : Reaches t d ss p) (hp : t p = some .dir) :
    (Reaches (FileTree.without t s) d ss p ∧ Reaches t' d ss p ∧ ¬ s <+: p) ∨
      ∀ q, Reaches t' d ss q → t' q ≠ some .dir := by
  induction h with
  | @done d hd =>
    by_cases hpre : s <+: d
    · right
      intro q hq
      cases hq with
      | done hd' => rw [hgone d hpre] at hd'; cases hd'
    · exact Or.inl ⟨.done (by rwa [without_of_not hpre]), .done ((hkept d hpre).dir hd), hpre⟩
  | dot _ ih =>
    rcases ih hp with ⟨h₁, h₂, hpre⟩ | hstuck
    · exact Or.inl ⟨.dot h₁, .dot h₂, hpre⟩
    · right
      intro q hq
      cases hq with | dot hq => exact hstuck q hq
  | empty _ ih =>
    rcases ih hp with ⟨h₁, h₂, hpre⟩ | hstuck
    · exact Or.inl ⟨.empty h₁, .empty h₂, hpre⟩
    · right
      intro q hq
      cases hq with | empty hq => exact hstuck q hq
  | up _ ih =>
    rcases ih hp with ⟨h₁, h₂, hpre⟩ | hstuck
    · exact Or.inl ⟨.up h₁, .up h₂, hpre⟩
    · right
      intro q hq
      cases hq with | up hq => exact hstuck q hq
  | @enter d _ n ss hn _ ih =>
    by_cases hpre : s <+: d ++ [n]
    · exact Or.inr fun q hq => stuck_at (hgone _ hpre) hq
    · have hn' := (hkept _ hpre).dir hn
      rcases ih hp with ⟨h₁, h₂, hpre'⟩ | hstuck
      · exact Or.inl ⟨.enter (by rwa [without_of_not hpre]) h₁, .enter hn' h₂, hpre'⟩
      · right
        intro q hq
        cases hq with
        | enter _ hq => exact hstuck q hq
        | follow h' _ => rw [hn'] at h'; cases h'
        | file h' => rw [hn'] at h'; cases h'
        | missing h' => rw [hn'] at h'; cases h'
  | @follow d _ n absolute way ss hn _ ih =>
    by_cases hpre : s <+: d ++ [n]
    · exact Or.inr fun q hq => stuck_at (hgone _ hpre) hq
    · have hn' := (hkept _ hpre).link hn
      rcases ih hp with ⟨h₁, h₂, hpre'⟩ | hstuck
      · exact Or.inl ⟨.follow (by rwa [without_of_not hpre]) h₁, .follow hn' h₂, hpre'⟩
      · right
        intro q hq
        cases hq with
        | enter h' _ => rw [hn'] at h'; cases h'
        | follow h' hq =>
          rw [hn'] at h'
          cases h'
          exact hstuck q hq
        | file h' => rw [hn'] at h'; cases h'
        | missing h' => rw [hn'] at h'; cases h'
  | file hn => rw [hn] at hp; cases hp
  | missing hn => rw [hn] at hp; cases hp

end

/-! ## The place that a path names -/

/-- The steps before the last name, the name, and whether slashes stand behind it; from the back. -/
def lastNameRev : List (Step ν) → Option (List (Step ν) × ν × Bool)
  | .name n :: r => some (r.reverse, n, false)
  | .empty :: r => (lastNameRev r).map fun x => (x.1, x.2.1, true)
  | _ => none

def lastName (ss : List (Step ν)) : Option (List (Step ν) × ν × Bool) := lastNameRev ss.reverse

theorem lastNameRev_split {r c : List (Step ν)} {n : ν} {slash : Bool} (h : lastNameRev r = some (c, n, slash)) :
    ∃ k, r = List.replicate k .empty ++ .name n :: c.reverse ∧ (slash = true ↔ 0 < k) := by
  induction r generalizing slash with
  | nil => cases h
  | cons s r ih =>
    cases s with
    | name m =>
      cases h
      exact ⟨0, by simp, by simp⟩
    | empty =>
      obtain ⟨⟨c', m, b⟩, hr, hx⟩ := Option.map_eq_some_iff.1 h
      cases hx
      obtain ⟨k, hk, -⟩ := ih hr
      exact ⟨k + 1, by rw [hk, List.replicate_succ, List.cons_append], by simp⟩
    | dot => cases h
    | up => cases h

theorem lastName_split {ss c : List (Step ν)} {n : ν} {slash : Bool} (h : lastName ss = some (c, n, slash)) :
    ∃ k, ss = c ++ .name n :: List.replicate k .empty ∧ (slash = true ↔ 0 < k) := by
  obtain ⟨k, hk, hslash⟩ := lastNameRev_split h
  refine ⟨k, ?_, hslash⟩
  have hrev := congrArg List.reverse hk
  simpa using hrev

/-- The path names `p`: the last name is looked up in the directory that the rest leads to. A path that ends
otherwise names the directory that it leads to; with a slash behind the name also what is not yet there. -/
inductive Names (t : Tree ν α) (ss : List (Step ν)) : Place ν → Prop
  | entry {c : List (Step ν)} {n : ν} {slash : Bool} {e : Place ν} : lastName ss = some (c, n, slash) →
      Reaches t [] c e → t e = some .dir → (slash = true → t (e ++ [n]) = none) → Names t ss (e ++ [n])
  | self {d : Place ν} : (∀ c n, lastName ss ≠ some (c, n, false)) → Reaches t [] ss d → t d = some .dir → Names t ss d

section
variable {t t' : Tree ν α} {ss c : List (Step ν)} {d e p q x : Place ν} {n : ν} {slash : Bool}

theorem Reaches.empties (hd : t d = some .dir) (k : Nat) : Reaches t d (List.replicate k .empty) d := by
  induction k with
  | zero => exact .done hd
  | succ k ih => exact .empty ih

/-- A directory under the last name is where the whole path leads. -/
theorem Reaches.last (hlast : lastName ss = some (c, n, slash)) (hc : Reaches t [] c e) (he : t e = some .dir)
    (hdir : t (e ++ [n]) = some .dir) : Reaches t [] ss (e ++ [n]) := by
  obtain ⟨k, rfl, -⟩ := lastName_split hlast
  exact hc.append he (.enter hdir (.empties hdir k))

/-- What stands before the last name leads to a directory. -/
theorem Reaches.before (hclosed : Closed t) (hlast : lastName ss = some (c, n, slash)) (h : Reaches t [] ss p) :
    ∃ e, Reaches t [] c e ∧ t e = some .dir := by
  obtain ⟨k, rfl, -⟩ := lastName_split hlast
  obtain ⟨e, he, hdir, -⟩ := h.split hclosed hclosed.root rfl (Or.inl (List.cons_ne_nil _ _))
  exact ⟨e, he, hdir⟩

theorem Names.before (hclosed : Closed t) (hlast : lastName ss = some (c, n, slash)) (h : Names t ss p) :
    ∃ e, Reaches t [] c e ∧ t e = some .dir := by
  cases h with
  | entry hlast' he hdir _ =>
    rw [hlast] at hlast'
    cases hlast'
    exact ⟨_, he, hdir⟩
  | self _ h _ => exact h.before hclosed hlast

theorem Names.of_dir (hlast : lastName ss = some (c, n, slash)) (he : Reaches t [] c e) (hdir : t e = some .dir)
    (hn : t (e ++ [n]) = some .dir) : Names t ss (e ++ [n]) := by
  cases slash with
  | false => exact .entry hlast he hdir (by simp)
  | true =>
    refine .self (fun c' n' h => ?_) (he.last hlast hdir hn) hn
    rw [hlast] at h
    cases h

/-- The one place a path can name: under the last name, if nothing or a directory stands there, and if only
one slash at the end could make a difference. -/
theorem Names.eq_entry (hclosed : Closed t) (hlast : lastName ss = some (c, n, slash)) (he : Reaches t [] c e)
    (hdir : t e = some .dir) (hn : slash = true → t (e ++ [n]) = none ∨ t (e ++ [n]) = some .dir) (h : Names t ss p) :
    p = e ++ [n] := by
  cases h with
  | entry hlast' he' hdir' _ =>
    rw [hlast] at hlast'
    cases hlast'
    rw [he.det he']
  | self hno h hp =>
    cases slash with
    | false => exact absurd hlast (hno c n)
    | true =>
      rcases hn rfl with hn | hn
      · obtain ⟨k, rfl, -⟩ := lastName_split hlast
        obtain ⟨e', he', hdir', hrest⟩ := h.split hclosed hclosed.root rfl (Or.inl (List.cons_ne_nil _ _))
        rw [he.det he'] at hn
        exact absurd hp (stuck_at hn hrest)
      · exact h.det (he.last hlast hdir hn)

theorem Names.det (hclosed : Closed t) (h : Names t ss p) (h' : Names t ss q) : p = q := by
  cases h with
  | entry hlast he hdir hn => exact (h'.eq_entry hclosed hlast he hdir fun hs => Or.inl (hn hs)).symm
  | self hno h hp =>
    cases h' with
    | entry hlast he hdir hn =>
      exact Names.eq_entry hclosed hlast he hdir (fun hs => Or.inl (hn hs)) (.self hno h hp)
    | self _ h' _ => exact h.det h'

/-- A place that opens is not named by a path that does not. -/
theorem Names.opens (h : Names t ss p) (hp : OpensAt t p) : Opens t ss := by
  cases h with
  | @entry c n slash e hlast he hdir hn =>
    rcases hp with hp | ⟨c', m, absolute, way, f, heq, -, hlink, hf, hfdir⟩
    · exact ⟨_, he.last hlast hdir hp, hp⟩
    · obtain ⟨rfl, hm⟩ := List.append_inj' heq rfl
      cases hm
      have hslash : slash = false := by
        cases slash with
        | false => rfl
        | true => rw [hn rfl] at hlink; cases hlink
      obtain ⟨k, rfl, hk⟩ := lastName_split hlast
      obtain rfl : k = 0 := by
        rw [hslash] at hk
        simpa using hk
      refine ⟨f, he.append hdir (.follow hlink ?_), hfdir⟩
      rwa [List.replicate_zero, List.append_nil]
  | self _ h hdir => exact ⟨_, h, hdir⟩

theorem Names.without [DecidableEq ν] (hclosed : Closed t) (h : Names t ss p) (hx : ¬ OpensAt t x) :
    Names (without t x) ss p := by
  cases h with
  | entry hlast he hdir hn =>
    obtain ⟨he', hdir'⟩ := he.around hclosed hdir hx
    refine .entry hlast he' hdir' fun hs => ?_
    unfold FileTree.without
    split
    · rfl
    · exact hn hs
  | self hno h hdir =>
    obtain ⟨h', hdir'⟩ := h.around hclosed hdir hx
    exact .self hno h' hdir'

end

end

/-! ## Finding what a path leads to -/

section
variable {ν α : Type} {t : Tree ν α} {d p : Place ν} {ss : List (Step ν)}

/-- What the path leads to, where no link leads anywhere. -/
def find (t : Tree ν α) : Place ν → List (Step ν) → Option (Place ν)
  | d, [] => some d
  | d, .dot :: ss => find t d ss
  | d, .empty :: ss => find t d ss
  | d, .up :: ss => find t d.dropLast ss
  | d, .name n :: ss =>
    match t (d ++ [n]), ss with
    | some .dir, ss => find t (d ++ [n]) ss
    | some (.file _), [] => some (d ++ [n])
    | _, _ => none

/-- Links lead to nothing. -/
def DeadLinks (t : Tree ν α) : Prop := ∀ d n absolute way, t (d ++ [n]) = some (.link absolute way) →
  ∀ ss p, Reaches t (base absolute d) (way ++ ss) p → t p = none

theorem reaches_of_find (hc : Closed t) (hd : t d = some .dir) (h : find t d ss = some p) :
    Reaches t d ss p ∧ t p ≠ none := by
  induction ss generalizing d with
  | nil =>
    cases h
    exact ⟨.done hd, by rw [hd]; simp⟩
  | cons s ss ih =>
    cases s with
    | dot => exact (ih hd h).imp .dot id
    | empty => exact (ih hd h).imp .empty id
    | up => exact (ih (hc.dir_up hd) h).imp .up id
    | name n =>
      unfold find at h
      split at h
      · rename_i hn
        exact (ih hn h).imp (.enter hn) id
      · rename_i hn
        cases h
        exact ⟨.file hn, by rw [hn]; simp⟩
      · cases h

theorem find_of_reaches (hdead : DeadLinks t) (h : Reaches t d ss p) (hp : t p ≠ none) : find t d ss = some p := by
  induction h with
  | done _ => rfl
  | dot _ ih => exact ih hp
  | empty _ ih => exact ih hp
  | up _ ih => exact ih hp
  | enter hn _ ih =>
    unfold find
    rw [hn]
    exact ih hp
  | follow hn hrest _ => exact absurd (hdead _ _ _ _ hn _ _ hrest) hp
  | file hn =>
    unfold find
    rw [hn]
  | missing hn => exact absurd hn hp

theorem find_eq_some_iff (hc : Closed t) (hdead : DeadLinks t) (hd : t d = some .dir) :
    find t d ss = some p ↔ Reaches t d ss p ∧ t p ≠ none :=
  ⟨reaches_of_find hc hd, fun h => find_of_reaches hdead h.1 h.2⟩

end

end FileTree
