import RemotefsSsh.Lib.Text

/-!
# Unix paths

A path is a text; its components are read as `std::path` reads them on Unix: repeated `/` and inner
or trailing `.` disappear, a leading `.` of a relative path and every `..` stay. Two paths are equal
when their components are.

The lemmas say how `push` acts on components (`components_push`) and what `fileName` finds
(`fileName_eq_some`).
-/

namespace UnixPath

open Utf8

abbrev PathBuf := Str

inductive Component where
  | rootDir
  | curDir
  | parentDir
  | normal (name : Str)
deriving DecidableEq, Repr

def isAbsolute (p : PathBuf) : Bool := p.head? == some '/'

/-- The texts between the slashes. -/
def segs : Str → List Str
  | [] => [[]]
  | c :: cs =>
    if c = '/' then [] :: segs cs
    else match segs cs with
      | [] => [[c]]
      | s :: ss => (c :: s) :: ss

def dot : Str := ['.']
def dotDot : Str := ['.', '.']

/-- A segment as a component; empty ones and `.` are skipped. -/
def ofSeg (s : Str) : Option Component :=
  if s = [] ∨ s = dot then none else if s = dotDot then some .parentDir else some (.normal s)

/-- What stands in front of the first segment that counts: the root, a leading `.`, or nothing. -/
def leading (p : PathBuf) : List Component :=
  if isAbsolute p then [.rootDir] else if (segs p).head? = some dot then [.curDir] else []

/-- `Path::components` -/
def components (p : PathBuf) : List Component := leading p ++ (segs p).filterMap ofSeg

/-- Equal as `PathBuf`s: component by component. -/
def SamePath (p q : PathBuf) : Prop := components p = components q

instance (p q : PathBuf) : Decidable (SamePath p q) := by unfold SamePath; infer_instance

/-- `Path::file_name` -/
def fileName (p : PathBuf) : Option Str :=
  match (components p).getLast? with
  | some (.normal s) => some s
  | _ => none

/-- `PathBuf::push` -/
def push (base p : PathBuf) : PathBuf :=
  if isAbsolute p then p
  else if base = [] ∨ base.getLast? = some '/' then base ++ p
  else base ++ '/' :: p

/-- Drop the segments that do not count from the back; the first segment stays. -/
def trimBack : List Str → List Str
  | [] => []
  | [s] => [s]
  | s :: t :: rest => if s = [] ∨ s = dot then trimBack (t :: rest) else s :: t :: rest

/-- The text of segments given last first. -/
def unseg : List Str → PathBuf
  | [] => []
  | [s] => if s = [] then ['/'] else s
  | ss => List.intercalate ['/'] ss.reverse

/-- `Path::parent` -/
def parent (p : PathBuf) : Option PathBuf :=
  match trimBack (segs p).reverse with
  | [] => none
  | [s] => if s = [] then none else some []
  | _ :: rest => some (unseg (trimBack rest))

/-- A name that is one normal component. -/
def IsName (s : Str) : Prop := s ≠ [] ∧ '/' ∉ s ∧ s ≠ dot ∧ s ≠ dotDot

instance (s : Str) : Decidable (IsName s) := by unfold IsName; infer_instance

/-! ## Segments -/

theorem segs_ne_nil (s : Str) : segs s ≠ [] := by
  cases s with
  | nil => simp [segs]
  | cons c cs =>
    simp only [segs]
    split
    · simp
    · split <;> simp

theorem segs_append (a b : Str) : segs (a ++ '/' :: b) = segs a ++ segs b := by
  induction a with
  | nil => simp [segs]
  | cons c cs ih =>
    by_cases hc : c = '/'
    · simp [segs, hc, ih]
    · simp only [List.cons_append, segs, hc, ↓reduceIte, ih]
      cases h : segs cs with
      | nil => exact absurd h (segs_ne_nil cs)
      | cons s ss => rfl

theorem segs_of_not_mem {s : Str} (h : '/' ∉ s) : segs s = [s] := by
  induction s with
  | nil => rfl
  | cons c cs ih =>
    simp only [List.mem_cons, not_or] at h
    simp [segs, Ne.symm h.1, ih h.2]

theorem slash_not_mem_segs {s t : Str} (h : t ∈ segs s) : '/' ∉ t := by
  induction s generalizing t with
  | nil => simp only [segs, List.mem_singleton] at h; simp [h]
  | cons c cs ih =>
    simp only [segs] at h
    split at h
    · rcases List.mem_cons.1 h with rfl | h
      · simp
      · exact ih h
    · rename_i hc
      split at h
      · rw [List.mem_singleton] at h; simp [h, Ne.symm hc]
      · rename_i s ss hs
        rcases List.mem_cons.1 h with rfl | h
        · simp only [List.mem_cons, not_or]
          exact ⟨Ne.symm hc, ih (by rw [hs]; exact List.mem_cons_self)⟩
        · exact ih (by rw [hs]; exact List.mem_cons_of_mem _ h)

theorem ofSeg_eq_normal {s n : Str} : ofSeg s = some (.normal n) ↔ s = n ∧ s ≠ [] ∧ s ≠ dot ∧ s ≠ dotDot := by
  unfold ofSeg
  split
  · rename_i h; simp only [reduceCtorEq, false_iff]; tauto
  · rename_i h
    split
    · simp only [Option.some.injEq, reduceCtorEq, false_iff]; tauto
    · simp only [Option.some.injEq, Component.normal.injEq]; tauto

theorem ofSeg_name {n : Str} (h : IsName n) : ofSeg n = some (.normal n) :=
  ofSeg_eq_normal.2 ⟨rfl, h.1, h.2.2.1, h.2.2.2⟩

theorem normal_mem_components {p : PathBuf} {n : Str} (h : .normal n ∈ components p) : IsName n := by
  unfold components at h
  rcases List.mem_append.1 h with h | h
  · unfold leading at h
    split at h
    · simp at h
    · split at h <;> simp at h
  · obtain ⟨s, hs, he⟩ := List.mem_filterMap.1 h
    obtain ⟨rfl, h1, h2, h3⟩ := ofSeg_eq_normal.1 he
    exact ⟨h1, slash_not_mem_segs hs, h2, h3⟩

/-! ## `file_name` and `push` -/

theorem fileName_eq_some {p : PathBuf} {n : Str} :
    fileName p = some n ↔ (components p).getLast? = some (.normal n) := by
  unfold fileName
  split
  · rename_i s h; simp [h]
  · rename_i h; simp only [reduceCtorEq, false_iff]; exact h n

theorem isName_of_fileName {p : PathBuf} {n : Str} (h : fileName p = some n) : IsName n :=
  normal_mem_components (List.mem_of_getLast? (fileName_eq_some.1 h))

theorem not_absolute_of_slash {p : Str} (h : '/' ∉ p) : isAbsolute p = false := by
  cases p with
  | nil => rfl
  | cons c cs => simp only [List.mem_cons, not_or] at h; simp [isAbsolute, Ne.symm h.1]

theorem components_of_slash_free {s : Str} (h : '/' ∉ s) :
    components s = (if s = dot then [.curDir] else []) ++ (ofSeg s).toList := by
  unfold components leading
  rw [segs_of_not_mem h, not_absolute_of_slash h]
  simp only [Bool.false_eq_true, ↓reduceIte, List.head?_cons, Option.some.injEq, List.filterMap_cons]
  cases ofSeg s <;> rfl

theorem fileName_of_name {n : Str} (h : IsName n) : fileName n = some n := by
  rw [fileName_eq_some, components_of_slash_free h.2.1, if_neg h.2.2.1, ofSeg_name h]
  rfl

theorem isAbsolute_append {a b : Str} (ha : a ≠ []) : isAbsolute (a ++ b) = isAbsolute a := by
  cases a with
  | nil => exact absurd rfl ha
  | cons c cs => rfl

theorem isAbsolute_ne_nil {p : PathBuf} (h : isAbsolute p = true) : p ≠ [] := by
  rintro rfl; simp [isAbsolute] at h

theorem leading_append {a b : Str} (ha : a ≠ []) : leading (a ++ '/' :: b) = leading a := by
  unfold leading
  rw [isAbsolute_append ha, segs_append]
  cases h : segs a with
  | nil => exact absurd h (segs_ne_nil a)
  | cons s ss => rfl

/-- A relative path pushed on a base adds its segments to the base's components. -/
theorem components_push {base p : PathBuf} (hb : isAbsolute base = true) (hp : isAbsolute p = false) :
    components (push base p) = components base ++ (segs p).filterMap ofSeg := by
  have hne := isAbsolute_ne_nil hb
  have happ : ∀ a b : Str, isAbsolute (a ++ '/' :: b) = true → a = [] ∨ isAbsolute a = true := by
    intro a b h
    cases a with
    | nil => exact Or.inl rfl
    | cons c cs => exact Or.inr h
  simp only [push, hp, Bool.false_eq_true, ↓reduceIte, hne, false_or]
  split
  · -- the base already ends with a slash
    rename_i hlast
    obtain ⟨b0, rfl⟩ := List.getLast?_eq_some_iff.1 hlast
    rw [List.append_assoc, List.singleton_append]
    unfold components
    rw [segs_append, segs_append]
    rcases happ b0 [] hb with rfl | hb0
    · simp [leading, isAbsolute, segs, ofSeg]
    · rw [leading_append (isAbsolute_ne_nil hb0), leading_append (isAbsolute_ne_nil hb0)]
      simp [segs, ofSeg]
  · unfold components
    rw [segs_append, leading_append hne, List.filterMap_append, List.append_assoc]

theorem components_push_name {base : PathBuf} {n : Str} (hb : isAbsolute base = true) (hn : IsName n) :
    components (push base n) = components base ++ [.normal n] := by
  rw [components_push hb (not_absolute_of_slash hn.2.1), segs_of_not_mem hn.2.1]
  simp [ofSeg_name hn]

theorem isAbsolute_push {base p : PathBuf} (hb : isAbsolute base = true) : isAbsolute (push base p) = true := by
  unfold push
  split
  · assumption
  · split <;> rw [isAbsolute_append (isAbsolute_ne_nil hb), hb]

/-- Only a text whose last component is normal adds exactly one normal component. -/
theorem fileName_of_components_push {base p : PathBuf} {n : Str} (hb : isAbsolute base = true)
    (h : components (push base p) = components base ++ [.normal n]) : fileName p = some n := by
  rw [fileName_eq_some]
  cases hp : isAbsolute p with
  | true =>
    have hpush : push base p = p := by simp [push, hp]
    rw [← hpush, h]
    simp
  | false =>
    rw [components_push hb hp] at h
    have hsegs := List.append_cancel_left h
    simp [components, hsegs]

/-! ## `parent` -/

theorem segs_unseg {l : List Str} (hne : l ≠ []) (hl : ∀ s ∈ l, '/' ∉ s) :
    segs (List.intercalate ['/'] l) = l := by
  induction l with
  | nil => exact absurd rfl hne
  | cons s t ih =>
    cases t with
    | nil => simpa using segs_of_not_mem (hl s List.mem_cons_self)
    | cons u v =>
      have h := ih (List.cons_ne_nil u v) fun x hx => hl x (List.mem_cons_of_mem s hx)
      rw [List.intercalate_cons_cons, List.append_assoc, List.singleton_append, segs_append,
        segs_of_not_mem (hl s List.mem_cons_self), h]
      rfl

theorem trimBack_getLast (l : List Str) : (trimBack l).getLast? = l.getLast? := by
  induction l with
  | nil => rfl
  | cons s t ih =>
    cases t with
    | nil => rfl
    | cons u v =>
      simp only [trimBack]
      split
      · rw [ih, List.getLast?_cons_cons]
      · rfl

theorem trimBack_subset {l : List Str} {s : Str} (h : s ∈ trimBack l) : s ∈ l := by
  induction l with
  | nil => exact h
  | cons a t ih =>
    cases t with
    | nil => exact h
    | cons u v =>
      simp only [trimBack] at h
      split at h
      · exact List.mem_cons_of_mem a (ih h)
      · exact h

theorem ofSeg_trimBack (l : List Str) : (trimBack l).reverse.filterMap ofSeg = l.reverse.filterMap ofSeg := by
  induction l with
  | nil => rfl
  | cons a t ih =>
    cases t with
    | nil => rfl
    | cons u v =>
      simp only [trimBack]
      split
      · rename_i hskip
        have hnone : ofSeg a = none := by unfold ofSeg; rw [if_pos hskip]
        rw [ih, List.reverse_cons (a := a), List.filterMap_append]
        simp [hnone]
      · rfl

theorem components_of_root {l : List Str} (h : l.getLast? = some []) (hl : ∀ s ∈ l, '/' ∉ s) :
    components (unseg l) = .rootDir :: l.reverse.filterMap ofSeg := by
  match l with
  | [] => simp at h
  | [s] => simp at h; subst h; rfl
  | s :: t :: r =>
    have hsegs : segs (unseg (s :: t :: r)) = (s :: t :: r).reverse :=
      segs_unseg (by simp) fun x hx => hl x (List.mem_reverse.1 hx)
    have habs : isAbsolute (unseg (s :: t :: r)) = true := by
      obtain ⟨b, hb⟩ := List.getLast?_eq_some_iff.1 h
      have hrev : (s :: t :: r).reverse = [] :: b.reverse := by rw [hb]; simp
      have hbne : b.reverse ≠ [] := by
        intro hnil
        have := congrArg List.length hrev
        simp [hnil] at this
      obtain ⟨u, v, huv⟩ := List.exists_cons_of_ne_nil hbne
      show isAbsolute (List.intercalate ['/'] (s :: t :: r).reverse) = true
      rw [hrev, huv, List.intercalate_cons_cons]
      rfl
    unfold components leading
    rw [habs, hsegs]
    rfl

/-- The parent of a name in an absolute directory is the directory. -/
theorem parent_push_name {base : PathBuf} {n : Str} (hb : isAbsolute base = true) (hn : IsName n) :
    ∃ q, parent (push base n) = some q ∧ components q = components base := by
  have hroot : ∀ {b : Str}, b = [] ∨ isAbsolute b = true → (segs b).head? = some [] := by
    rintro b (rfl | h)
    · rfl
    · cases b with
      | nil => rfl
      | cons c cs => simp [isAbsolute] at h; simp [segs, h]
  -- the segments of the result, and those of the base as components see them
  obtain ⟨l, hl, hhead, hslash, hsegs⟩ : ∃ l : List Str, segs (push base n) = l ++ [n] ∧ l.head? = some [] ∧
      (∀ s ∈ l, '/' ∉ s) ∧ components base = .rootDir :: l.filterMap ofSeg := by
    have hcomp : components base = .rootDir :: (segs base).filterMap ofSeg := by
      unfold components leading; rw [hb]; rfl
    simp only [push, not_absolute_of_slash hn.2.1, Bool.false_eq_true, ↓reduceIte, isAbsolute_ne_nil hb, false_or]
    split
    · rename_i hlast
      obtain ⟨b, rfl⟩ := List.getLast?_eq_some_iff.1 hlast
      refine ⟨segs b, ?_, hroot ?_, fun s => slash_not_mem_segs, ?_⟩
      · rw [List.append_assoc, List.singleton_append, segs_append, segs_of_not_mem hn.2.1]
      · cases b with
        | nil => exact Or.inl rfl
        | cons c cs => exact Or.inr hb
      · rw [hcomp, segs_append]; simp [segs, ofSeg]
    · exact ⟨segs base, by rw [segs_append, segs_of_not_mem hn.2.1], hroot (Or.inr hb),
        fun s => slash_not_mem_segs, hcomp⟩
  have hne : l.reverse ≠ [] := by rintro h; simp at h; subst h; simp at hhead
  obtain ⟨u, v, huv⟩ := List.exists_cons_of_ne_nil hne
  refine ⟨unseg (trimBack l.reverse), ?_, ?_⟩
  · unfold parent
    rw [hl, List.reverse_append, List.reverse_singleton, List.singleton_append, huv]
    have hkeep : ¬ (n = [] ∨ n = dot) := by rintro (h | h); exacts [hn.1 h, hn.2.2.1 h]
    simp [trimBack, hkeep]
  · rw [components_of_root, ofSeg_trimBack, List.reverse_reverse, hsegs]
    · rw [trimBack_getLast, List.getLast?_reverse, hhead]
    · exact fun s hs => hslash s (List.mem_reverse.1 (trimBack_subset hs))

theorem isAbsolute_of_components {p : PathBuf} {cs : List Component} (h : components p = .rootDir :: cs) :
    isAbsolute p = true := by
  have hseg : ∀ s, ofSeg s ≠ some .rootDir := by
    intro s hs
    unfold ofSeg at hs
    split at hs
    · cases hs
    · split at hs <;> cases hs
  by_contra hno
  unfold components leading at h
  rw [if_neg hno] at h
  have hmem : .rootDir ∈ (segs p).filterMap ofSeg := by
    split at h
    · cases h
    · rw [List.nil_append] at h
      rw [h]
      exact List.mem_cons_self
  obtain ⟨s, -, hs⟩ := List.mem_filterMap.1 hmem
  exact hseg s hs

theorem trimBack_head {l r : List Str} {s t : Str} (h : trimBack l = s :: t :: r) : ¬ (s = [] ∨ s = dot) := by
  induction l with
  | nil => cases h
  | cons a b ih =>
    cases b with
    | nil => cases h
    | cons u v =>
      simp only [trimBack] at h
      split at h
      · exact ih h
      · rename_i hkeep
        cases h
        exact hkeep

/-- The parent of an absolute path is the path without its last component. -/
theorem components_parent {p d : PathBuf} (hp : isAbsolute p = true) (h : parent p = some d) :
    isAbsolute d = true ∧ ∃ c, components p = components d ++ [c] := by
  have hhead : (segs p).head? = some [] := by
    cases p with
    | nil => cases hp
    | cons c cs =>
      have hc : c = '/' := by simpa [isAbsolute] using hp
      rw [segs, if_pos hc]
      rfl
  have hslash : ∀ s ∈ trimBack (segs p).reverse, '/' ∉ s := fun s hs =>
    slash_not_mem_segs (List.mem_reverse.1 (trimBack_subset hs))
  have hlast : (trimBack (segs p).reverse).getLast? = some [] := by
    rw [trimBack_getLast, List.getLast?_reverse, hhead]
  have hall : components p = .rootDir :: (trimBack (segs p).reverse).reverse.filterMap ofSeg := by
    rw [ofSeg_trimBack, List.reverse_reverse]
    unfold components leading
    rw [if_pos hp]
    rfl
  unfold parent at h
  cases hl : trimBack (segs p).reverse with
  | nil => rw [hl] at h; cases h
  | cons s rest =>
    rw [hl] at h hall hlast hslash
    cases rest with
    | nil =>
      cases hlast
      cases h
    | cons t rest =>
      cases h
      have hd : components (unseg (trimBack (t :: rest))) = .rootDir :: (t :: rest).reverse.filterMap ofSeg := by
        rw [components_of_root, ofSeg_trimBack]
        · rw [trimBack_getLast]
          exact hlast
        · exact fun x hx => hslash x (List.mem_cons_of_mem s (trimBack_subset hx))
      refine ⟨isAbsolute_of_components hd, ?_⟩
      cases hs : ofSeg s with
      | none =>
        have hkeep := trimBack_head hl
        unfold ofSeg at hs
        rw [if_neg hkeep] at hs
        split at hs <;> cases hs
      | some c =>
        refine ⟨c, ?_⟩
        rw [hall, hd, List.reverse_cons, List.filterMap_append, List.cons_append]
        simp [hs]

/-- Pushing relative texts on one base is injective. -/
theorem push_inj {base a b : PathBuf} (ha : isAbsolute a = false) (hb : isAbsolute b = false)
    (h : push base a = push base b) : a = b := by
  unfold push at h
  simp only [ha, hb, Bool.false_eq_true, ↓reduceIte] at h
  split at h
  · exact List.append_cancel_left h
  · simpa using h

/-! ## Logical paths -/

/-- The names that are left when each `..` takes back the name before it. -/
def logicalNames (cs : List Component) : List Str :=
  cs.foldl (fun ns c => match c with
    | .normal n => ns ++ [n]
    | .parentDir => ns.dropLast
    | _ => ns) []

/-- The absolute path of these names. -/
def ofNames (ns : List Str) : PathBuf := '/' :: List.intercalate ['/'] ns

/-- An absolute path as a shell shows it after `cd`: without `.` and `..`, and with single slashes. -/
def logical (p : PathBuf) : PathBuf := ofNames (logicalNames (components p))

theorem isAbsolute_ofNames (ns : List Str) : isAbsolute (ofNames ns) = true := rfl

theorem components_ofNames {ns : List Str} (h : ∀ n ∈ ns, IsName n) :
    components (ofNames ns) = .rootDir :: ns.map .normal := by
  have hofSeg : ∀ l : List Str, (∀ n ∈ l, IsName n) → l.filterMap ofSeg = l.map .normal := by
    intro l hl
    induction l with
    | nil => rfl
    | cons n l ih =>
      rw [List.filterMap_cons_some (ofSeg_name (hl n List.mem_cons_self)), List.map_cons,
        ih fun m hm => hl m (List.mem_cons_of_mem n hm)]
  have hsegs : segs (ofNames ns) = [] :: if ns = [] then [[]] else ns := by
    unfold ofNames
    rw [segs, if_pos rfl]
    split
    · rename_i hnil
      rw [hnil]
      rfl
    · rename_i hne
      rw [segs_unseg hne fun n hn => (h n hn).2.1]
  unfold components leading
  rw [isAbsolute_ofNames, if_pos rfl, hsegs]
  by_cases hnil : ns = []
  · subst hnil
    rfl
  · rw [if_neg hnil, List.filterMap_cons_none (by rfl), hofSeg ns h]
    rfl

/-- Names only, behind the root. -/
theorem components_absolute {p : PathBuf} (habs : isAbsolute p = true) (hup : .parentDir ∉ components p) :
    ∃ ns : List Str, components p = .rootDir :: ns.map .normal ∧ ∀ n ∈ ns, IsName n := by
  have hcs : components p = .rootDir :: (segs p).filterMap ofSeg := by
    unfold components leading
    rw [habs, if_pos rfl]
    rfl
  have hnames : ∀ cs : List Component, (∀ c ∈ cs, ∃ n, c = .normal n) → ∃ ns : List Str, cs = ns.map .normal := by
    intro cs hall
    induction cs with
    | nil => exact ⟨[], rfl⟩
    | cons c cs ih =>
      obtain ⟨n, rfl⟩ := hall c List.mem_cons_self
      obtain ⟨ns, rfl⟩ := ih fun d hd => hall d (List.mem_cons_of_mem _ hd)
      exact ⟨n :: ns, rfl⟩
  obtain ⟨ns, hns⟩ := hnames ((segs p).filterMap ofSeg) (by
    intro c hc
    obtain ⟨s, _, hs⟩ := List.mem_filterMap.1 hc
    unfold ofSeg at hs
    split at hs
    · cases hs
    · split at hs
      · cases hs
        exact absurd (by rw [hcs]; exact List.mem_cons_of_mem _ hc) hup
      · exact ⟨s, (Option.some.inj hs).symm⟩)
  refine ⟨ns, by rw [hcs, hns], fun n hn => normal_mem_components (p := p) ?_⟩
  rw [hcs, hns]
  exact List.mem_cons_of_mem _ (List.mem_map_of_mem hn)

theorem logicalNames_normal (ns : List Str) : logicalNames (.rootDir :: ns.map .normal) = ns := by
  have hfold : ∀ (ns acc : List Str), (ns.map Component.normal).foldl (fun ns c => match c with
      | .normal n => ns ++ [n]
      | .parentDir => ns.dropLast
      | _ => ns) acc = acc ++ ns := by
    intro ns
    induction ns with
    | nil => simp
    | cons n ns ih =>
      intro acc
      rw [List.map_cons, List.foldl_cons, ih]
      simp
  have h := hfold ns []
  rwa [List.nil_append] at h

/-- Without `..` nothing is taken back. -/
theorem components_logical {p : PathBuf} (habs : isAbsolute p = true) (hup : .parentDir ∉ components p) :
    components (logical p) = components p := by
  obtain ⟨ns, hns, hnames⟩ := components_absolute habs hup
  unfold logical
  rw [hns, logicalNames_normal, components_ofNames hnames]

theorem getLast_ofNames {ns : List Str} {n : Str} (hn : n ≠ []) :
    (ofNames (ns ++ [n])).getLast? = n.getLast? := by
  have hsuffix : ∀ l : List Str, ∃ a, List.intercalate ['/'] (l ++ [n]) = a ++ n := by
    intro l
    induction l with
    | nil => exact ⟨[], by simp [List.intercalate]⟩
    | cons m l ih =>
      obtain ⟨a, ha⟩ := ih
      cases l with
      | nil => exact ⟨m ++ ['/'], by simp [List.intercalate]⟩
      | cons k l =>
        refine ⟨m ++ ('/' :: a), ?_⟩
        rw [List.cons_append, List.cons_append, List.intercalate_cons_cons, ← List.cons_append, ha]
        simp
  obtain ⟨a, ha⟩ := hsuffix ns
  unfold ofNames
  rw [ha, ← List.cons_append, List.getLast?_append_of_ne_nil _ hn]

end UnixPath
