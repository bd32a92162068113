import RemotefsSsh.Lib.FileTree

/-!
# What moving and copying do to a tree

`Mv` and `Cp` say what the utilities `mv` and `cp -r` of POSIX have done when they succeed: a directory as
the destination receives the source, anything else is replaced. `MvPost` and `CpPost` say that the source has
gone, or not changed, and that the destination is the object. A directory that receives its own contents would
have to be infinite (`no_self`), so they fail when the destination is one (`Mv.not_into`, `Cp.not_into`).
-/

namespace FileTree

section
variable {ν α : Type} [DecidableEq ν]

/-! ## The utilities -/

/-- Neither place is in the other. -/
def Apart (p q : Place ν) : Prop := ¬ p <+: q ∧ ¬ q <+: p

/-- What stood at `s` and below stands at `l`. -/
structure Moved (t t' : Tree ν α) (s l : Place ν) : Prop where
  apart : Apart s l
  there : ∀ r, t' (l ++ r) = t (s ++ r)
  gone : ∀ r, t' (s ++ r) = none
  elsewhere : ∀ p, ¬ s <+: p → ¬ l <+: p → t' p = t p

/-- What stands at `s` and below stands at `l` as well. -/
structure Copied (t t' : Tree ν α) (s l : Place ν) : Prop where
  apart : Apart s l
  there : ∀ r, t' (l ++ r) = t (s ++ r)
  elsewhere : ∀ p, ¬ l <+: p → t' p = t p

/-- Nothing is there, or a file. -/
def Fresh (t : Tree ν α) (p : Place ν) : Prop := t p = none ∨ ∃ data, t p = some (.file data)

/-- What `mv -f` has done when it succeeds. A source that is its own destination may be left alone. Only a
directory can be given a new name with a slash behind it. -/
inductive Mv (t t' : Tree ν α) (src dest : List (Step ν)) : Prop
  | onto {s l : Place ν} : Names t src s → t s ≠ none → ¬ Opens t dest → Names t dest l →
      (∀ c n, lastName dest = some (c, n, true) → t s = some .dir) → (s = l ∧ t' = t) ∨
        Moved t t' s l → Mv t t' src dest
  | into {s d : Place ν} {c : List (Step ν)} {n : ν} {slash : Bool} : Names t src s → t s ≠ none → Reaches t [] dest d →
      t d = some .dir → lastName src = some (c, n, slash) → (s = d ++ [n] ∧ t' = t) ∨ Moved t t' s (d ++ [n]) →
      Mv t t' src dest

/-- What `cp -r` copies: POSIX leaves open whether a link as the source is followed. -/
def Source (follows : Bool) (t : Tree ν α) (src : List (Step ν)) (s : Place ν) : Prop :=
  if follows then Reaches t [] src s else Names t src s

/-- What `cp -rf` has done when it succeeds. A file may be written through a link. In a directory a copy under a
name that is free or that of a file is the source; another one may be merged with what is there, and so are
the contents of a source without a last name. -/
inductive Cp (follows : Bool) (t t' : Tree ν α) (src dest : List (Step ν)) : Prop
  | onto {s₀ s l : Place ν} : Names t src s₀ → Source follows t src s → t s ≠ none → ¬ Opens t dest →
      (Names t dest l ∧ (∀ c n, lastName dest = some (c, n, true) → t s = some .dir)) ∨
        (Reaches t [] dest l ∧ ∃ data, t s = some (.file data)) →
      (s = l ∧ t' = t) ∨ (Apart s₀ l ∧ Copied t t' s l) → Cp follows t t' src dest
  | into {s d : Place ν} {c : List (Step ν)} {n : ν} {slash : Bool} : Source follows t src s → t s ≠ none →
      Reaches t [] dest d → t d = some .dir → lastName src = some (c, n, slash) →
      (Fresh t (d ++ [n]) → ∀ r, t (s ++ r) ≠ none → t' (d ++ n :: r) ≠ none) →
      (∀ p, ¬ d ++ [n] <+: p → KeptAt t t' p) → Cp follows t t' src dest
  | merge : lastName src = none → Opens t dest → Cp follows t t' src dest

/-! ## What they are called for -/

/-- Nothing is at the source any more, and what was there is at the destination. -/
structure MvPost (t t' : Tree ν α) (src dest : List (Step ν)) : Prop where
  gone : ∀ p, Names t' src p → t' p = none
  there : ∃ s l, Names t src s ∧ t s ≠ none ∧ Names t' dest l ∧ ∀ r, t' (l ++ r) = t (s ++ r)

/-- The source is unchanged, and what is at the destination, with or without following a link there, is a
copy of it. -/
structure CpPost (follows : Bool) (t t' : Tree ν α) (src dest : List (Step ν)) : Prop where
  same : ∀ p, Names t src p → Names t' src p ∧ ∀ r, t' (p ++ r) = t (p ++ r)
  there : ∃ s l, Source follows t src s ∧ t s ≠ none ∧ (Names t' dest l ∨ Reaches t' [] dest l) ∧
    ∀ r, t' (l ++ r) = t (s ++ r)

/-- The destination is another place than the source and its way does not lead through the source. -/
def Clear (t : Tree ν α) (src dest : List (Step ν)) : Prop :=
  ∃ s l, Names t src s ∧ Names t dest l ∧ s ≠ l ∧ Names (without t s) dest l

/-- The destination leads to a directory in which nothing, or a file, has the name of the source, and is not a
link like the source. -/
structure IntoDir (t : Tree ν α) (src dest : List (Step ν)) : Prop where
  fresh : ∃ d c n slash, Reaches t [] dest d ∧ t d = some .dir ∧ lastName src = some (c, n, slash) ∧ Fresh t (d ++ [n])
  other : ∀ s l, Names t src s → Names t dest l → t l = t s → t l = some .dir

/-! ## Onto what is no directory -/

section
variable {t t' : Tree ν α} {src dest ss : List (Step ν)} {s l p q d : Place ν}

theorem Moved.kept (h : Moved t t' s l) : ∀ p, ¬ s <+: p → KeptAt (without t l) t' p := by
  intro p hs i hi _
  by_cases hl : l <+: p
  · rw [without_below hl] at hi
    cases hi
  · rw [without_of_not hl] at hi
    rw [h.elsewhere p hs hl, hi]

omit [DecidableEq ν] in
theorem Moved.gone_below (h : Moved t t' s l) (hp : s <+: p) : t' p = none := by
  obtain ⟨r, rfl⟩ := hp
  exact h.gone r

/-- Nothing is at the source any more. -/
theorem Moved.source_gone (hc' : Closed t') (h : Moved t t' s l) (hs : Names (without t l) src s) :
    ∀ q, Names t' src q → t' q = none := by
  intro q hq
  cases hs with
  | @entry c n slash e hlast he hdir hn =>
    rcases he.kept_or_stuck h.kept (fun _ => h.gone_below) hdir with ⟨-, he', hpre⟩ | hstuck
    · have hnone : t' (e ++ [n]) = none := h.gone_below (List.prefix_refl _)
      rw [hq.eq_entry hc' hlast he' ((h.kept e hpre).dir hdir) fun _ => Or.inl hnone, hnone]
    · obtain ⟨e', he', hdir'⟩ := hq.before hc' hlast
      exact absurd hdir' (hstuck e' he')
  | self hno hreach hdir =>
    rcases hreach.kept_or_stuck h.kept (fun _ => h.gone_below) hdir with ⟨-, -, hpre⟩ | hstuck
    · exact absurd (List.prefix_refl s) hpre
    · cases hq with
      | @entry c n slash e hlast he hdir' hn =>
        cases slash with
        | false => exact absurd hlast (hno c n)
        | true => exact hn rfl
      | self _ hq hdir' => exact absurd hdir' (hstuck q hq)

theorem kept_of_without (x : Place ν) : ∀ p, KeptAt (without t x) t p := by
  intro p i hi _
  unfold without at hi
  split at hi
  · cases hi
  · exact hi

theorem Opens.of_without {x : Place ν} (h : Opens (without t x) ss) : Opens t ss := by
  obtain ⟨d, hd, hdir⟩ := h
  exact ⟨d, hd.mono (kept_of_without x) hdir, (kept_of_without x d).dir hdir⟩

/-- A way that avoids the source leads to the destination as before. -/
theorem Moved.dest_found (hc : Closed t) (h : Moved t t' s l) (hopens : ¬ Opens t dest)
    (hslash : ∀ c n, lastName dest = some (c, n, true) → t s = some .dir) (hl : Names (without t s) dest l) :
    Names t' dest l := by
  have hsne : s ≠ [] := by
    rintro rfl
    exact h.apart.1 (List.nil_prefix)
  have hc₁ : Closed (without t s) := hc.without hsne
  have hnot : ¬ OpensAt (without t s) l := fun ho => hopens (hl.opens ho).of_without
  have hkept : ∀ p, KeptAt (without (without t s) l) t' p := by
    intro p i hi _
    by_cases hpl : l <+: p
    · rw [without_below hpl] at hi
      cases hi
    · rw [without_of_not hpl] at hi
      by_cases hps : s <+: p
      · rw [without_below hps] at hi
        cases hi
      · rw [without_of_not hps] at hi
        rw [h.elsewhere p hps hpl, hi]
  cases hl.without hc₁ hnot with
  | @entry c n slash e hlast he hdir _ =>
    have he' := he.mono hkept hdir
    have hdir' := (hkept e).dir hdir
    cases slash with
    | false => exact .entry hlast he' hdir' (by simp)
    | true =>
      refine .of_dir hlast he' hdir' ?_
      have hthere := h.there []
      rw [List.append_nil, List.append_nil, hslash c n hlast] at hthere
      exact hthere
  | self _ _ hdir =>
    rw [without_below (List.prefix_refl l)] at hdir
    cases hdir

/-- If the destination is found at all, its way has avoided the source. -/
theorem Moved.way_clear (hc : Closed t) (hc' : Closed t') (h : Moved t t' s l) (hopens : ¬ Opens t dest)
    (hl : Names t dest l) (hq : Names t' dest q) : Names (without t s) dest l := by
  have hnot : ¬ OpensAt t l := fun ho => hopens (hl.opens ho)
  cases hl with
  | @entry c n slash e hlast he hdir hn =>
    obtain ⟨he₁, hdir₁⟩ := he.around hc hdir hnot
    rcases he₁.kept_or_stuck h.kept (fun _ => h.gone_below) hdir₁ with
      ⟨hclear, -, hpre⟩ | hstuck
    · refine .entry hlast (hclear.mono ?_ (by rwa [without_of_not hpre])) (by rwa [without_of_not hpre]) fun hs => ?_
      · intro p i hi _
        by_cases hps : s <+: p
        · rw [without_below hps] at hi
          cases hi
        · rw [without_of_not hps] at hi ⊢
          exact kept_of_without _ p i hi (by assumption)
      · by_cases hps : s <+: e ++ [n]
        · exact without_below hps
        · rw [without_of_not hps, hn hs]
    · obtain ⟨e', he', hdir'⟩ := hq.before hc' hlast
      exact absurd hdir' (hstuck e' he')
  | self _ hreach hdir => exact absurd ⟨_, hreach, hdir⟩ hopens

/-- **Onto what is no directory, `mv` moves the source to the destination exactly when these are different
places and the way to the destination does not lead through the source.** -/
theorem Mv.post_iff (hc : Closed t) (hc' : Closed t') (h : Mv t t' src dest) (hopens : ¬ Opens t dest) :
    MvPost t t' src dest ↔ Clear t src dest := by
  cases h with
  | @onto s l hs hsne _ hl hslash hmoved =>
    constructor
    · rintro ⟨hgone, s', l', -, -, hl', -⟩
      rcases hmoved with ⟨-, rfl⟩ | hmoved
      · exact absurd (hgone s hs) hsne
      · refine ⟨s, l, hs, hl, ?_, hmoved.way_clear hc hc' hopens hl hl'⟩
        rintro rfl
        exact hmoved.apart.1 (List.prefix_refl s)
    · rintro ⟨s', l', hs', hl', hne, hclear⟩
      obtain rfl := hs.det hc hs'
      obtain rfl := hl.det hc hl'
      rcases hmoved with ⟨rfl, -⟩ | hmoved
      · exact absurd rfl hne
      · have hnot : ¬ OpensAt t l := fun ho => hopens (hl.opens ho)
        exact ⟨hmoved.source_gone hc' (hs.without hc hnot),
          s, l, hs, hsne, hmoved.dest_found hc hopens hslash hclear, hmoved.there⟩
  | into _ _ hd hdir _ _ => exact absurd ⟨_, hd, hdir⟩ hopens

/-! ## Into a directory -/

omit [DecidableEq ν] in
/-- A directory that receives its own contents has no last depth. -/
theorem no_self (hb : Bounded t') {n : ν} (hs : t s ≠ none) (hthere : ∀ r, t' (d ++ r) = t (s ++ r))
    (hin : ∀ r, t (s ++ r) ≠ none → t' (d ++ n :: r) ≠ none) : False := by
  obtain ⟨k, hk⟩ := hb
  have hall : ∀ j, t' (d ++ List.replicate j n) ≠ none := by
    intro j
    induction j with
    | zero => rwa [List.replicate_zero, hthere, List.append_nil]
    | succ j ih =>
      rw [hthere] at ih
      exact hin _ ih
  have hlen := hk _ (hall (k + 1))
  rw [List.length_append, List.length_replicate] at hlen
  omega

/-- No directory and no link stands at a fresh place or below. -/
theorem Fresh.not_below (hc : Closed t) (hf : Fresh t l) (hp : l <+: p) {i : Item ν α} (hi : t p = some i) :
    ∃ data, i = .file data := by
  by_cases hne : l = p
  · subst hne
    rcases hf with hf | ⟨data, hf⟩
    · rw [hf] at hi
      cases hi
    · rw [hf] at hi
      cases hi
      exact ⟨data, rfl⟩
  · have hdir := hc.dir_above hp hne (by rw [hi]; simp)
    rcases hf with hf | ⟨data, hf⟩
    · rw [hf] at hdir
      cases hdir
    · rw [hf] at hdir
      cases hdir

/-- What is kept outside a fresh place is kept. -/
theorem Fresh.keptAt (hc : Closed t) (hf : Fresh t l) (h : ¬ l <+: p → KeptAt t t' p) : KeptAt t t' p := by
  intro i hi hfile
  by_cases hpl : l <+: p
  · obtain ⟨data, rfl⟩ := hf.not_below hc hpl hi
    exact absurd rfl (hfile data)
  · exact h hpl i hi hfile

omit [DecidableEq ν] in
/-- A path that names a directory names nothing else afterwards, as long as every way leads to the same
directory or to none. -/
theorem Names.dir_again (hc' : Closed t') (hd : Names t ss d) (hdir : t d = some .dir)
    (hwalk : ∀ c e, Reaches t [] c e → t e = some .dir →
      (Reaches t' [] c e ∧ t' e = some .dir) ∨ ∀ q, Reaches t' [] c q → t' q ≠ some .dir)
    (hq : Names t' ss q) (hqne : t' q ≠ none) : q = d := by
  cases hd with
  | @entry c n slash e hlast he hedir hn =>
    rcases hwalk c e he hedir with ⟨he', hedir'⟩ | hstuck
    · refine hq.eq_entry hc' hlast he' hedir' fun hs => ?_
      rw [hn hs] at hdir
      cases hdir
    · obtain ⟨e', he', hedir'⟩ := hq.before hc' hlast
      exact absurd hedir' (hstuck e' he')
  | self hno hreach hdir =>
    cases hq with
    | @entry c n slash e hlast _ _ hn =>
      cases slash with
      | false => exact absurd hlast (hno c n)
      | true => exact absurd (hn rfl) hqne
    | self _ hq hqdir =>
      rcases hwalk _ d hreach hdir with ⟨hd', -⟩ | hstuck
      · exact hq.det hd'
      · exact absurd hqdir (hstuck q hq)

omit [DecidableEq ν] in
/-- A path to a directory names the directory or a link. -/
theorem Reaches.names_or_link (hc : Closed t) (hd : Reaches t [] ss d) (hdir : t d = some .dir) :
    Names t ss d ∨ ∃ c n e absolute way, lastName ss = some (c, n, false) ∧ Reaches t [] c e ∧ t e = some .dir ∧
      t (e ++ [n]) = some (.link absolute way) := by
  by_cases hno : ∀ c n, lastName ss ≠ some (c, n, false)
  · exact Or.inl (.self hno hd hdir)
  · push Not at hno
    obtain ⟨c, n, hlast⟩ := hno
    obtain ⟨k, hss, hslash⟩ := lastName_split hlast
    obtain rfl : k = 0 := by simpa using hslash
    obtain ⟨e, he, hedir, hrest⟩ := hd.split hc hc.root hss (Or.inl (List.cons_ne_nil _ _))
    cases hrest with
    | enter hn _ =>
      have hd' := he.last hlast hedir hn
      rw [hd.det hd']
      exact Or.inl (.of_dir hlast he hedir hn)
    | follow hn _ => exact Or.inr ⟨c, n, e, _, _, hlast, he, hedir, hn⟩
    | file hn => rw [hn] at hdir; cases hdir
    | missing hn => rw [hn] at hdir; cases hdir

omit [DecidableEq ν] in
/-- What a path to a directory names afterwards: the directory, or the link to it. -/
theorem Reaches.named_again (hc : Closed t) (hc' : Closed t') (hd : Reaches t [] ss d) (hdir : t d = some .dir)
    (hwalk : ∀ c e, Reaches t [] c e → t e = some .dir →
      (Reaches t' [] c e ∧ t' e = some .dir) ∨ ∀ q, Reaches t' [] c q → t' q ≠ some .dir)
    (hq : Names t' ss q) (hqne : t' q ≠ none) :
    q = d ∨ ∃ absolute way, Names t ss q ∧ t q = some (.link absolute way) := by
  rcases hd.names_or_link hc hdir with hn | ⟨c, n, e, absolute, way, hlast, he, hedir, hlink⟩
  · exact Or.inl (hn.dir_again hc' hdir hwalk hq hqne)
  · right
    rcases hwalk c e he hedir with ⟨he', hedir'⟩ | hstuck
    · have hqe := hq.eq_entry hc' hlast he' hedir' (by simp)
      subst hqe
      exact ⟨absolute, way, .entry hlast he hedir (by simp), hlink⟩
    · obtain ⟨e', he', hdir'⟩ := hq.before hc' hlast
      exact absurd hdir' (hstuck e' he')

/-- **A directory that receives the source is not the source.** -/
theorem Mv.not_into (hc : Closed t) (hc' : Closed t') (hb : Bounded t') (h : Mv t t' src dest)
    (hinto : IntoDir t src dest) :
    ¬ MvPost t t' src dest := by
  rintro ⟨hgone, s', l', hs', -, hl', hthere⟩
  obtain ⟨⟨d, c, n, slash, hd, hdir, hlast, hfresh⟩, hother⟩ := hinto
  cases h with
  | onto _ _ hopens _ _ _ => exact hopens ⟨d, hd, hdir⟩
  | @into s d' _ _ _ hs hsne hd' _ hlast' hmoved =>
    rw [hlast] at hlast'
    cases hlast'
    obtain rfl := hd.det hd'
    obtain rfl := hs.det hc hs'
    rcases hmoved with ⟨-, rfl⟩ | hmoved
    · exact hsne (hgone s hs)
    · have hkept : ∀ p, ¬ s <+: p → KeptAt t t' p := fun p hps =>
        hfresh.keptAt hc fun hpl i hi _ => by rw [hmoved.elsewhere p hps hpl, hi]
      have hsame : t' l' = t s := by simpa using hthere []
      have hwalk : ∀ c e, Reaches t [] c e → t e = some .dir →
          (Reaches t' [] c e ∧ t' e = some .dir) ∨ ∀ q, Reaches t' [] c q → t' q ≠ some .dir := fun c e he hedir =>
        (he.kept_or_stuck hkept (fun _ => hmoved.gone_below) hedir).imp
          (fun h => ⟨h.2.1, (hkept e h.2.2).dir hedir⟩) id
      rcases hd.named_again hc hc' hdir hwalk hl' (by rwa [hsame]) with rfl | ⟨absolute, way, hl, hlink⟩
      · refine no_self (n := n) hb hsne hthere fun r hr => ?_
        have := hmoved.there r
        rw [List.append_assoc, List.singleton_append] at this
        rwa [this]
      · by_cases hpre : s <+: l'
        · exact hsne (hsame ▸ hmoved.gone_below hpre)
        · have hkeptl : t' l' = t l' := by rw [hlink, (hkept l' hpre).link hlink]
          have hldir := hother s l' hs hl (hkeptl ▸ hsame)
          rw [hlink] at hldir
          cases hldir

/-! ## Copies -/

omit [DecidableEq ν] in
theorem Source.det {follows : Bool} (hc : Closed t) (h : Source follows t ss p) (h' : Source follows t ss q) :
    p = q := by
  unfold Source at h h'
  cases follows with
  | true => exact Reaches.det h h'
  | false => exact Names.det hc h h'

omit [DecidableEq ν] in
/-- A source that is a link was not followed. -/
theorem Source.names {follows : Bool} {absolute : Bool} {way : List (Step ν)} (h : Source follows t src s)
    (hlink : t l = some (.link absolute way)) (hsame : t l = t s) : Names t src s := by
  unfold Source at h
  cases follows with
  | true => exact absurd (hsame ▸ hlink) (Reaches.not_link h)
  | false => exact h

theorem Copied.kept (h : Copied t t' s l) : ∀ p, KeptAt (without t l) t' p := by
  intro p i hi _
  by_cases hl : l <+: p
  · rw [without_below hl] at hi
    cases hi
  · rw [without_of_not hl] at hi
    rw [h.elsewhere p hl, hi]

/-- A path that does not lead through the copy names the same place as before. -/
theorem Copied.source_found (hc : Closed t) (h : Copied t t' s l) (hnot : ¬ OpensAt t l) (hp : Names t src p)
    (hapart : Apart p l) : Names t' src p := by
  have hsame : t' p = t p := h.elsewhere p hapart.2
  cases hp with
  | entry hlast he hdir hn =>
    obtain ⟨he', hdir'⟩ := he.around hc hdir hnot
    refine .entry hlast (he'.mono h.kept hdir') ((h.kept _).dir hdir') fun hs => ?_
    rw [hsame, hn hs]
  | self hno hreach hdir =>
    obtain ⟨hreach', hdir'⟩ := hreach.around hc hdir hnot
    exact .self hno (hreach'.mono h.kept hdir') ((h.kept _).dir hdir')

theorem Copied.dest_named (hc : Closed t) (h : Copied t t' s l) (hopens : ¬ Opens t dest) (hl : Names t dest l)
    (hslash : ∀ c n, lastName dest = some (c, n, true) → t s = some .dir) : Names t' dest l := by
  have hnot : ¬ OpensAt t l := fun ho => hopens (hl.opens ho)
  cases hl with
  | @entry c n slash e hlast he hdir hn =>
    obtain ⟨he', hdir'⟩ := he.around hc hdir hnot
    cases slash with
    | false => exact .entry hlast (he'.mono h.kept hdir') ((h.kept _).dir hdir') (by simp)
    | true =>
      refine .of_dir hlast (he'.mono h.kept hdir') ((h.kept _).dir hdir') ?_
      have hthere := h.there []
      rwa [List.append_nil, List.append_nil, hslash c n hlast] at hthere
  | self _ hreach hdir => exact absurd ⟨_, hreach, hdir⟩ hopens

/-- The way through links to a place that has become a file. -/
theorem Reaches.refile (hc : Closed t) (hkept : ∀ p, KeptAt (without t l) t' p) {data : α}
    (hfile : t' l = some (.file data))
    (hdir : t l ≠ some .dir) (h : Reaches t d ss l) : Reaches t' d ss l := by
  have hkeep : ∀ {p i}, t p = some i → (∀ data, i ≠ .file data) → p ≠ l → t' p = some i := by
    intro p i hi hno hne
    refine hkept p i ?_ hno
    rwa [without_of_not fun hpre => hdir (hc.dir_above hpre (Ne.symm hne) (by rw [hi]; simp))]
  induction h with
  | done hd => exact absurd hd hdir
  | dot _ ih => exact .dot (ih hkept hfile hdir hkeep)
  | empty _ ih => exact .empty (ih hkept hfile hdir hkeep)
  | up _ ih => exact .up (ih hkept hfile hdir hkeep)
  | enter hn _ ih => exact .enter (hkeep hn (by simp) (by rintro rfl; exact hdir hn)) (ih hkept hfile hdir hkeep)
  | follow hn hrest ih =>
    exact .follow (hkeep hn (by simp) (by rintro rfl; exact hrest.not_link hn)) (ih hkept hfile hdir hkeep)
  | file _ => exact .file hfile
  | missing _ => exact .file hfile

omit [DecidableEq ν] in
theorem Apart.below (h : Apart p l) (r : Place ν) : ¬ l <+: p ++ r := fun hpre =>
  (List.prefix_or_prefix_of_prefix hpre (List.prefix_append p r)).elim h.2 h.1

/-- **Onto what is no directory, `cp` leaves the source alone and makes the destination a copy of it.** -/
theorem Cp.post {follows : Bool} (hc : Closed t) (h : Cp follows t t' src dest) (hopens : ¬ Opens t dest) :
    CpPost follows t t' src dest := by
  cases h with
  | into _ _ hd hdir _ _ _ => exact absurd ⟨_, hd, hdir⟩ hopens
  | merge _ h => exact absurd h hopens
  | @onto s₀ s l hs₀ hs hsne _ hl hcopied =>
    rcases hcopied with ⟨rfl, rfl⟩ | ⟨hapart, hcopied⟩
    · exact ⟨fun p hp => ⟨hp, fun r => rfl⟩, s, s, hs, hsne, hl.imp And.left And.left, fun r => rfl⟩
    · have hnot : ¬ OpensAt t l := by
        intro ho
        rcases hl with ⟨hl, -⟩ | ⟨hl, -⟩
        · exact hopens (hl.opens ho)
        · rcases ho with ho | ⟨_, _, _, _, _, -, -, hlink, -⟩
          · exact hopens ⟨l, hl, ho⟩
          · exact hl.not_link hlink
      refine ⟨fun p hp => ?_, s, l, hs, hsne, ?_, hcopied.there⟩
      · obtain rfl := hs₀.det hc hp
        exact ⟨hcopied.source_found hc hnot hp hapart, fun r => hcopied.elsewhere _ (hapart.below r)⟩
      · rcases hl with ⟨hl, hslash⟩ | ⟨hl, data, hfile⟩
        · exact Or.inl (hcopied.dest_named hc hopens hl hslash)
        · right
          have hthere := hcopied.there []
          rw [List.append_nil, List.append_nil, hfile] at hthere
          exact hl.refile hc hcopied.kept hthere fun hdir => hopens ⟨l, hl, hdir⟩

/-- **A directory that receives a copy of the source is none.** -/
theorem Cp.not_into {follows : Bool} (hc : Closed t) (hc' : Closed t') (hb : Bounded t') (h : Cp follows t t' src dest)
    (hinto : IntoDir t src dest) : ¬ CpPost follows t t' src dest := by
  rintro ⟨-, s', l', hs', -, hl', hthere⟩
  obtain ⟨⟨d, c, n, slash, hd, hdir, hlast, hfresh⟩, hother⟩ := hinto
  cases h with
  | onto _ _ _ hopens _ _ => exact hopens ⟨d, hd, hdir⟩
  | merge hno _ => rw [hlast] at hno; cases hno
  | @into s d' _ _ _ hs hsne hd' _ hlast' hin hkept =>
    rw [hlast] at hlast'
    cases hlast'
    obtain rfl := hd.det hd'
    obtain rfl := hs.det hc hs'
    have hkept : ∀ p, KeptAt t t' p := fun p => hfresh.keptAt hc fun hpl => hkept p hpl
    have hsame : t' l' = t s := by simpa using hthere []
    rcases hl' with hl' | hl'
    · rcases hd.named_again hc hc' hdir (fun c e he hedir => Or.inl ⟨he.mono hkept hedir, (hkept e).dir hedir⟩) hl'
        (by rwa [hsame]) with rfl | ⟨absolute, way, hl, hlink⟩
      · exact no_self hb hsne hthere (hin hfresh)
      · have hkeptl : t' l' = t l' := by rw [hlink, (hkept l').link hlink]
        have hldir := hother s l' (hs.names hlink (hkeptl ▸ hsame)) hl (hkeptl ▸ hsame)
        rw [hlink] at hldir
        cases hldir
    · obtain rfl := hl'.det (hd.mono hkept hdir)
      exact no_self hb hsne hthere (hin hfresh)

end

end

end FileTree
