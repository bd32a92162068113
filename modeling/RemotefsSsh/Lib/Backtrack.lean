import Mathlib.Data.List.TakeWhile

/-!
# Leftmost-first regular expressions

Anchored expressions with greedy repetition of single-character classes, alternatives and capture
groups. `hits` lists every way an expression can match the front of a text, in the order in which a
backtracking matcher tries them; `captures` is the first one, the match a leftmost-first engine
reports.

Each hit records its `choices`: how many characters each repetition took and which alternative was
entered, in the order they were decided. The order of `hits` is the descending lexicographic order
of the choices (`hits_sorted`), so a match is the reported one exactly when no other match beats it
(`captures_eq_some`).
-/

namespace Backtrack

variable {α : Type}

inductive Pat (α : Type) where
  /-- One character of a class. -/
  | one (p : α → Bool)
  /-- Between `lo` and `hi` characters of a class, as many as possible first. -/
  | rep (p : α → Bool) (lo : Nat) (hi : Option Nat)
  | seq (a b : Pat α)
  | alt (a b : Pat α)
  | group (i : Nat) (a : Pat α)
  /-- End of the text. -/
  | eot

structure Hit (α : Type) where
  text : List α
  caps : List (Nat × List α)
  choices : List Nat
  rest : List α

namespace Hit

def andThen (h k : Hit α) : Hit α := ⟨h.text ++ k.text, h.caps ++ k.caps, h.choices ++ k.choices, k.rest⟩

def choose (n : Nat) (h : Hit α) : Hit α := { h with choices := n :: h.choices }

def capture (i : Nat) (h : Hit α) : Hit α := { h with caps := (i, h.text) :: h.caps }

/-- The text of group `i`. -/
def group (h : Hit α) (i : Nat) : Option (List α) := (h.caps.find? fun c => c.1 == i).map (·.2)

end Hit

/-- The most characters of `s` a repetition can take. -/
def maxTake (p : α → Bool) (hi : Option Nat) (s : List α) : Nat :=
  match hi with
  | none => (s.takeWhile p).length
  | some m => min (s.takeWhile p).length m

def took (s : List α) (n : Nat) : Hit α := ⟨s.take n, [], [n], s.drop n⟩

def Pat.hits : Pat α → List α → List (Hit α)
  | one p, s =>
    match s with
    | [] => []
    | c :: cs => if p c then [⟨[c], [], [], cs⟩] else []
  | rep p lo hi, s => ((List.range (maxTake p hi s + 1)).reverse.filter (lo ≤ ·)).map (took s)
  | seq a b, s => (a.hits s).flatMap fun h => (b.hits h.rest).map h.andThen
  | alt a b, s => (a.hits s).map (Hit.choose 1) ++ (b.hits s).map (Hit.choose 0)
  | group i a, s => (a.hits s).map (Hit.capture i)
  | eot, s => if s.isEmpty then [⟨[], [], [], []⟩] else []

/-- The match of an expression anchored at the start of the text. -/
def Pat.captures (p : Pat α) (s : List α) : Option (Hit α) := (p.hits s).head?

/-! ## What is a hit -/

section
variable {p : α → Bool} {lo : Nat} {hi : Option Nat} {a b : Pat α} {s : List α} {h : Hit α}

theorem mem_hits_one : h ∈ (Pat.one p).hits s ↔ ∃ c cs, s = c :: cs ∧ p c = true ∧ h = ⟨[c], [], [], cs⟩ := by
  cases s with
  | nil => simp [Pat.hits]
  | cons c cs =>
    simp only [Pat.hits, List.mem_ite_nil_right, List.mem_singleton]
    constructor
    · rintro ⟨hc, rfl⟩; exact ⟨c, cs, rfl, hc, rfl⟩
    · rintro ⟨_, _, he, hc, rfl⟩; cases he; exact ⟨hc, rfl⟩

theorem le_maxTake_iff {n : Nat} (hn : n ≤ s.length) :
    n ≤ maxTake p hi s ↔ (∀ c ∈ s.take n, p c = true) ∧ ∀ m, hi = some m → n ≤ m := by
  have key : n ≤ (s.takeWhile p).length ↔ ∀ c ∈ s.take n, p c = true := by
    constructor
    · intro hle c hc
      have hpre : s.take n <+: s.takeWhile p :=
        List.prefix_of_prefix_length_le (List.take_prefix n s) (List.takeWhile_prefix p)
          (by rw [List.length_take]; omega)
      exact List.mem_takeWhile_imp (hpre.subset hc)
    · intro hall
      have htake : s.takeWhile p = s.take n ++ (s.drop n).takeWhile p := by
        rw [← List.takeWhile_append_of_pos hall, List.take_append_drop]
      rw [htake, List.length_append, List.length_take]
      omega
  unfold maxTake
  cases hi with
  | none => simp [key]
  | some m =>
    have hmin : n ≤ min (s.takeWhile p).length m ↔ n ≤ (s.takeWhile p).length ∧ n ≤ m := Nat.le_min
    rw [hmin, key]
    simp

theorem mem_hits_rep : h ∈ (Pat.rep p lo hi).hits s ↔
    ∃ t r, s = t ++ r ∧ (∀ c ∈ t, p c = true) ∧ lo ≤ t.length ∧ (∀ m, hi = some m → t.length ≤ m) ∧
      h = ⟨t, [], [t.length], r⟩ := by
  have hmax : maxTake p hi s ≤ s.length := by
    have := (List.takeWhile_prefix p (l := s)).length_le
    unfold maxTake; split <;> omega
  simp only [Pat.hits, List.mem_map, List.mem_filter, List.mem_reverse, List.mem_range, decide_eq_true_eq]
  constructor
  · rintro ⟨n, ⟨hlt, hlo⟩, rfl⟩
    have hlen : n ≤ s.length := by omega
    obtain ⟨h1, h2⟩ := (le_maxTake_iff hlen).1 (Nat.lt_succ_iff.1 hlt)
    have ht : (s.take n).length = n := by rw [List.length_take]; omega
    exact ⟨s.take n, s.drop n, (List.take_append_drop n s).symm, h1, by omega, by rwa [ht], by rw [ht]; rfl⟩
  · rintro ⟨t, r, rfl, h1, h2, h3, rfl⟩
    refine ⟨t.length, ⟨Nat.lt_succ_iff.2 ((le_maxTake_iff (by simp)).2 ⟨by simpa using h1, h3⟩), h2⟩, ?_⟩
    simp [took]

theorem mem_hits_seq : h ∈ (Pat.seq a b).hits s ↔
    ∃ k ∈ a.hits s, ∃ l ∈ b.hits k.rest, h = k.andThen l := by
  simp [Pat.hits, eq_comm]

theorem mem_hits_alt : h ∈ (Pat.alt a b).hits s ↔
    (∃ k ∈ a.hits s, h = k.choose 1) ∨ ∃ k ∈ b.hits s, h = k.choose 0 := by
  simp [Pat.hits, eq_comm]

theorem mem_hits_group {i : Nat} : h ∈ (Pat.group i a).hits s ↔ ∃ k ∈ a.hits s, h = k.capture i := by
  simp [Pat.hits, eq_comm]

theorem mem_hits_eot : h ∈ (Pat.eot : Pat α).hits s ↔ s = [] ∧ h = ⟨[], [], [], []⟩ := by
  cases s <;> simp [Pat.hits]

end

/-! ## What an expression describes -/

/-- A kind of text, by its readings: which are valid, what each spells, captures and chooses. -/
structure Form (α X : Type) where
  valid : X → Prop
  text : X → List α
  caps : X → List (Nat × List α)
  choices : X → List Nat

namespace Form

variable {X Y : Type}

def andThen (f : Form α X) (g : Form α Y) : Form α (X × Y) where
  valid x := f.valid x.1 ∧ g.valid x.2
  text x := f.text x.1 ++ g.text x.2
  caps x := f.caps x.1 ++ g.caps x.2
  choices x := f.choices x.1 ++ g.choices x.2

def group (i : Nat) (f : Form α X) : Form α X := { f with caps := fun x => (i, f.text x) :: f.caps x }

/-- Texts taken by one repetition. -/
def run (Q : List α → Prop) : Form α (List α) := ⟨Q, fun t => t, fun _ => [], fun t => [t.length]⟩

def empty : Form α Unit := ⟨fun _ => True, fun _ => [], fun _ => [], fun _ => []⟩

def hit (f : Form α X) (x : X) (rest : List α) : Hit α := ⟨f.text x, f.caps x, f.choices x, rest⟩

end Form

namespace Pat

variable {X Y : Type} {f : Form α X} {g : Form α Y} {a b : Pat α}

/-- The hits of the expression are the valid readings of `f` at the front of a text. -/
def Describes (a : Pat α) (f : Form α X) : Prop :=
  ∀ s h, h ∈ a.hits s ↔ ∃ x r, s = f.text x ++ r ∧ f.valid x ∧ h = f.hit x r

/-- The same for an expression that takes the whole text. -/
def DescribesAll (a : Pat α) (f : Form α X) : Prop :=
  ∀ s h, h ∈ a.hits s ↔ ∃ x, s = f.text x ∧ f.valid x ∧ h = f.hit x []

theorem describes_seq (ha : a.Describes f) (hb : b.Describes g) : (seq a b).Describes (f.andThen g) := by
  intro s h
  rw [mem_hits_seq]
  constructor
  · rintro ⟨k, hk, l, hl, rfl⟩
    obtain ⟨x, r, rfl, hx, rfl⟩ := (ha s k).1 hk
    obtain ⟨y, r', he, hy, rfl⟩ := (hb _ l).1 hl
    exact ⟨(x, y), r', by simpa [Form.andThen, Form.hit] using he, ⟨hx, hy⟩, rfl⟩
  · rintro ⟨⟨x, y⟩, r, rfl, ⟨hx, hy⟩, rfl⟩
    exact ⟨f.hit x (g.text y ++ r), (ha _ _).2 ⟨x, _, by simp [Form.andThen], hx, rfl⟩, g.hit y r,
      (hb _ _).2 ⟨y, r, rfl, hy, rfl⟩, rfl⟩

theorem describesAll_seq (ha : a.Describes f) (hb : b.DescribesAll g) : (seq a b).DescribesAll (f.andThen g) := by
  intro s h
  rw [mem_hits_seq]
  constructor
  · rintro ⟨k, hk, l, hl, rfl⟩
    obtain ⟨x, r, rfl, hx, rfl⟩ := (ha s k).1 hk
    obtain ⟨y, he, hy, rfl⟩ := (hb _ l).1 hl
    exact ⟨(x, y), congrArg (f.text x ++ ·) he, ⟨hx, hy⟩, rfl⟩
  · rintro ⟨⟨x, y⟩, rfl, ⟨hx, hy⟩, rfl⟩
    exact ⟨f.hit x (g.text y), (ha _ _).2 ⟨x, _, rfl, hx, rfl⟩, g.hit y [], (hb _ _).2 ⟨y, rfl, hy, rfl⟩, rfl⟩

theorem describes_group {i : Nat} (ha : a.Describes f) : (group i a).Describes (f.group i) := by
  intro s h
  rw [mem_hits_group]
  constructor
  · rintro ⟨k, hk, rfl⟩
    obtain ⟨x, r, rfl, hx, rfl⟩ := (ha s k).1 hk
    exact ⟨x, r, rfl, hx, rfl⟩
  · rintro ⟨x, r, rfl, hx, rfl⟩
    exact ⟨f.hit x r, (ha _ _).2 ⟨x, r, rfl, hx, rfl⟩, rfl⟩

theorem describes_rep {p : α → Bool} {lo : Nat} {hi : Option Nat} {Q : List α → Prop}
    (hQ : ∀ t, Q t ↔ (∀ c ∈ t, p c = true) ∧ lo ≤ t.length ∧ ∀ m, hi = some m → t.length ≤ m) :
    (rep p lo hi).Describes (.run Q) := by
  intro s h
  rw [mem_hits_rep]
  constructor
  · rintro ⟨t, r, hs, h1, h2, h3, rfl⟩; exact ⟨t, r, hs, (hQ t).2 ⟨h1, h2, h3⟩, rfl⟩
  · rintro ⟨t, r, hs, ht, rfl⟩
    obtain ⟨h1, h2, h3⟩ := (hQ t).1 ht
    exact ⟨t, r, hs, h1, h2, h3, rfl⟩

theorem describesAll_eot : (eot : Pat α).DescribesAll .empty := by
  intro s h
  rw [mem_hits_eot]
  constructor
  · rintro ⟨rfl, rfl⟩; exact ⟨(), rfl, trivial, rfl⟩
  · rintro ⟨_, rfl, _, rfl⟩; exact ⟨rfl, rfl⟩

end Pat

/-! ## The order of the hits -/

/-- The lists part at some position, and the first one has the larger number there. -/
def Beats (x y : List Nat) : Prop := ∃ w m n u v, x = w ++ m :: u ∧ y = w ++ n :: v ∧ n < m

theorem beats_cons_of_lt {m n : Nat} {u v : List Nat} (h : n < m) : Beats (m :: u) (n :: v) :=
  ⟨[], m, n, u, v, rfl, rfl, h⟩

theorem Beats.append {x y : List Nat} (h : Beats x y) (u v : List Nat) : Beats (x ++ u) (y ++ v) := by
  obtain ⟨w, m, n, u', v', rfl, rfl, hlt⟩ := h
  exact ⟨w, m, n, u' ++ u, v' ++ v, by simp, by simp, hlt⟩

theorem Beats.append_left {x y : List Nat} (w : List Nat) (h : Beats x y) : Beats (w ++ x) (w ++ y) := by
  obtain ⟨w', m, n, u, v, rfl, rfl, hlt⟩ := h
  exact ⟨w ++ w', m, n, u, v, by simp, by simp, hlt⟩

theorem not_beats_nil {y : List Nat} : ¬ Beats [] y := by
  rintro ⟨w, m, n, u, v, hx, _, _⟩
  simp at hx

theorem beats_cons_cons {m n : Nat} {u v : List Nat} : Beats (m :: u) (n :: v) ↔ n < m ∨ (m = n ∧ Beats u v) := by
  constructor
  · rintro ⟨w, a, b, u', v', hx, hy, hlt⟩
    cases w with
    | nil =>
      simp only [List.nil_append, List.cons.injEq] at hx hy
      exact Or.inl (by omega)
    | cons c w =>
      simp only [List.cons_append, List.cons.injEq] at hx hy
      exact Or.inr ⟨by omega, w, a, b, u', v', hx.2, hy.2, hlt⟩
  · rintro (h | ⟨rfl, h⟩)
    · exact beats_cons_of_lt h
    · exact h.append_left [m]

theorem not_beats_self (x : List Nat) : ¬ Beats x x := by
  induction x with
  | nil => exact not_beats_nil
  | cons n x ih => rw [beats_cons_cons]; simp [ih]

theorem Beats.asymm {x y : List Nat} (h : Beats x y) : ¬ Beats y x := by
  induction x generalizing y with
  | nil => exact absurd h not_beats_nil
  | cons m u ih =>
    cases y with
    | nil => exact not_beats_nil
    | cons n v =>
      rw [beats_cons_cons] at h ⊢
      rintro (h' | ⟨rfl, h'⟩)
      · rcases h with h | ⟨rfl, _⟩ <;> omega
      · rcases h with h | ⟨_, h⟩
        · omega
        · exact ih h h'

theorem beats_total {x y : List Nat} (h : x.length = y.length) : x = y ∨ Beats x y ∨ Beats y x := by
  induction x generalizing y with
  | nil =>
    cases y with
    | nil => exact Or.inl rfl
    | cons n y => simp at h
  | cons m x ih =>
    cases y with
    | nil => simp at h
    | cons n y =>
      simp only [beats_cons_cons]
      rcases Nat.lt_trichotomy m n with hlt | rfl | hlt
      · exact Or.inr (Or.inr (Or.inl hlt))
      · rcases ih (Nat.succ.inj h) with rfl | hb | hb
        · exact Or.inl rfl
        · exact Or.inr (Or.inl (Or.inr ⟨rfl, hb⟩))
        · exact Or.inr (Or.inr (Or.inr ⟨rfl, hb⟩))
      · exact Or.inr (Or.inl (Or.inl hlt))

/-- The hits come in descending order of their choices. -/
theorem hits_sorted (p : Pat α) (s : List α) : (p.hits s).Pairwise fun h k => Beats h.choices k.choices := by
  induction p generalizing s with
  | one p =>
    cases s with
    | nil => exact List.Pairwise.nil
    | cons c cs => simp only [Pat.hits]; split <;> simp
  | rep p lo hi =>
    simp only [Pat.hits]
    rw [List.pairwise_map]
    refine List.Pairwise.filter _ ?_
    rw [List.pairwise_reverse]
    exact List.pairwise_lt_range.imp fun h => beats_cons_of_lt h
  | seq a b iha ihb =>
    simp only [Pat.hits]
    rw [List.pairwise_flatMap]
    constructor
    · -- same first hit: the order of the second decides
      intro h _
      rw [List.pairwise_map]
      exact (ihb h.rest).imp fun hb => hb.append_left _
    · refine (iha s).imp fun hb k hk l hl => ?_
      obtain ⟨k', _, rfl⟩ := List.mem_map.1 hk
      obtain ⟨l', _, rfl⟩ := List.mem_map.1 hl
      exact hb.append _ _
  | alt a b iha ihb =>
    simp only [Pat.hits]
    rw [List.pairwise_append, List.pairwise_map, List.pairwise_map]
    refine ⟨(iha s).imp fun hb => hb.append_left [1], (ihb s).imp fun hb => hb.append_left [0], ?_⟩
    intro k hk l hl
    obtain ⟨k', _, rfl⟩ := List.mem_map.1 hk
    obtain ⟨l', _, rfl⟩ := List.mem_map.1 hl
    exact beats_cons_of_lt Nat.zero_lt_one
  | group i a iha =>
    simp only [Pat.hits]
    rw [List.pairwise_map]
    exact iha s
  | eot => simp only [Pat.hits]; split <;> simp

/-- The reported match is the one no other match beats. -/
theorem captures_eq_some {p : Pat α} {s : List α} {h : Hit α} :
    p.captures s = some h ↔ h ∈ p.hits s ∧ ∀ k ∈ p.hits s, k = h ∨ Beats h.choices k.choices := by
  have hs := hits_sorted p s
  unfold Pat.captures
  cases hl : p.hits s with
  | nil => simp
  | cons k ks =>
    rw [hl, List.pairwise_cons] at hs
    simp only [List.head?_cons, Option.some.injEq, List.mem_cons]
    constructor
    · rintro rfl
      exact ⟨Or.inl rfl, fun l hl => hl.imp id (hs.1 l)⟩
    · rintro ⟨rfl | hm, hmax⟩
      · rfl
      · rcases hmax k (Or.inl rfl) with rfl | hb
        · rfl
        · exact absurd (hs.1 h hm) hb.asymm

/-- A text starts with one longest run of a class. -/
theorem run_unique {p : α → Bool} {a b r s : List α} (ha : ∀ c ∈ a, p c = true) (hb : ∀ c ∈ b, p c = true)
    (hr : ∀ c, r.head? = some c → p c = false) (hs : ∀ c, s.head? = some c → p c = false)
    (h : a ++ r = b ++ s) : a = b ∧ r = s := by
  induction a generalizing b with
  | nil =>
    cases b with
    | nil => exact ⟨rfl, h⟩
    | cons c b =>
      rw [List.nil_append] at h
      have := hr c (by rw [h]; rfl)
      rw [hb c List.mem_cons_self] at this
      cases this
  | cons c a ih =>
    cases b with
    | nil =>
      rw [List.nil_append] at h
      have := hs c (by rw [← h]; rfl)
      rw [ha c List.mem_cons_self] at this
      cases this
    | cons d b =>
      simp only [List.cons_append, List.cons.injEq] at h
      obtain ⟨rfl, h⟩ := h
      obtain ⟨rfl, rfl⟩ := ih (fun x hx => ha x (List.mem_cons_of_mem c hx))
        (fun x hx => hb x (List.mem_cons_of_mem c hx)) h
      exact ⟨rfl, rfl⟩

theorem captures_isSome {p : Pat α} {s : List α} {h : Hit α} (hm : h ∈ p.hits s) : ∃ k, p.captures s = some k := by
  unfold Pat.captures
  cases hl : p.hits s with
  | nil => rw [hl] at hm; simp at hm
  | cons k ks => exact ⟨k, rfl⟩

end Backtrack
