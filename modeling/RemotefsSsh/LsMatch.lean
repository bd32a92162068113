import RemotefsSsh.Ls

/-!
# How `LS_RE` cuts a line into columns

A `Cut` is one way to read a line as the columns of the expression. `captures` picks the greediest
cut: column by column from the left, each as long as the rest allows (`captures_of_reads`,
`reads_of_captures`). `parseLsOutput` is then a function of that cut (`parseLsOutput_of_reads`), and
rejects a line that has none (`parseLsOutput_of_no_cut`).

On a line without newlines the greediest cut has its size and date columns at the last place of the
line where such columns can stand (`Reads.last`): owner and group swallow everything before it.
-/

namespace RemotefsSsh

open Utf8 UnixPath Backtrack Effect

/-- A time of day or a year, the two alternatives of the expression. -/
inductive Clock where
  | time (hours minutes : Str)
  | year (y : Str)
deriving DecidableEq, Repr

namespace Clock

def text : Clock → Str
  | time hours minutes => hours ++ ':' :: minutes
  | year y => y

def choices : Clock → List Nat
  | time hours minutes => [1, hours.length, minutes.length]
  | year y => [0, y.length]

end Clock

structure Cut where
  kind : Char
  perms : Str
  gap1 : Str
  links : Str
  gap2 : Str
  owner : Str
  gap3 : Str
  group : Str
  gap4 : Str
  size : Str
  gap5 : Str
  month : Str
  gap6 : Str
  day : Str
  gap7 : Str
  clock : Clock
  gap8 : Str
  name : Str
deriving DecidableEq, Repr

/-- White space, and some of it. -/
def Gap (s : Str) : Prop := s ≠ [] ∧ Blank s

theorem gap_space : Gap [' '] := ⟨List.cons_ne_nil _ _, by simp [isWhite_space]⟩

/-- Between `lo` and `hi` digits. -/
def Digits (K : Classes) (lo hi : Nat) (s : Str) : Prop := (∀ c ∈ s, K.digit c = true) ∧ lo ≤ s.length ∧ s.length ≤ hi

/-- Digits, and some of them. -/
def Number (K : Classes) (s : Str) : Prop := (∀ c ∈ s, K.digit c = true) ∧ s ≠ []

theorem number_decimal (K : Classes) (n : Nat) : Number K (decimal n) :=
  ⟨fun _ hc => K.digit_of_isDigit (isDigit_of_mem_decimal hc), decimal_ne_nil n⟩

/-- Text within a line, and some of it. -/
def Txt (s : Str) : Prop := '\n' ∉ s ∧ s ≠ []

def Clock.Valid (K : Classes) : Clock → Prop
  | time hours minutes => Digits K 1 2 hours ∧ Digits K 1 2 minutes
  | year y => Digits K 4 4 y

namespace Cut

def date (c : Cut) : Str := c.month ++ (c.gap6 ++ (c.day ++ (c.gap7 ++ c.clock.text)))

/-- The columns before the size. -/
def before (c : Cut) : Str :=
  c.kind :: (c.perms ++ (c.gap1 ++ (c.links ++ (c.gap2 ++ (c.owner ++ (c.gap3 ++ c.group))))))

/-- The columns from the size on. -/
def after (c : Cut) : Str := c.gap4 ++ (c.size ++ (c.gap5 ++ (c.date ++ (c.gap8 ++ c.name))))

def text (c : Cut) : Str := c.before ++ c.after

def beforeChoices (c : Cut) : List Nat :=
  [c.perms.length, c.gap1.length, c.links.length, c.gap2.length, c.owner.length, c.gap3.length, c.group.length]

/-- The lengths of the columns, in the order in which the expression settles them. -/
def choices (c : Cut) : List Nat :=
  c.beforeChoices ++
  ([c.gap4.length, c.size.length, c.gap5.length, c.month.length, c.gap6.length, c.day.length, c.gap7.length] ++
  (c.clock.choices ++ [c.gap8.length, c.name.length]))

structure Valid (K : Classes) (c : Cut) : Prop where
  kind : typeLetter c.kind = true
  perms : c.perms.length = 9 ∧ ∀ x ∈ c.perms, pexLetter x = true
  gap1 : Gap c.gap1
  links : Number K c.links
  gap2 : Gap c.gap2
  owner : Txt c.owner
  gap3 : Gap c.gap3
  group : Txt c.group
  gap4 : Gap c.gap4
  size : Number K c.size
  gap5 : Gap c.gap5
  month : c.month.length = 3 ∧ ∀ x ∈ c.month, K.word x = true
  gap6 : Gap c.gap6
  day : Digits K 1 2 c.day
  gap7 : Gap c.gap7
  clock : c.clock.Valid K
  gap8 : Gap c.gap8
  name : Txt c.name

def hit (c : Cut) : Hit Char where
  text := c.text
  caps := [(1, [c.kind]), (2, c.perms), (3, c.links), (4, c.owner), (5, c.group), (6, c.size), (7, c.date), (8, c.name)]
  choices := c.choices
  rest := []

end Cut

/-! ## The hits are the cuts -/

section
variable {K : Classes}

theorem one_le_length {t : Str} : 1 ≤ t.length ↔ t ≠ [] := List.length_pos_iff

theorem describes_blanks : blanks.Describes (.run Gap) :=
  Pat.describes_rep fun t => by simp [Gap, Blank, one_le_length, and_comm]

theorem describes_someText : someText.Describes (.run Txt) :=
  Pat.describes_rep fun t => by
    have hany : (∀ c ∈ t, anyChar c = true) ↔ '\n' ∉ t := by
      simp only [anyChar, bne_iff_ne, ne_eq]
      exact ⟨fun h hn => h _ hn rfl, fun h c hc he => h (he ▸ hc)⟩
    simp [Txt, hany, one_le_length]

theorem describes_number : (digits K 1 none).Describes (.run (Number K)) :=
  Pat.describes_rep fun t => by simp [Number, one_le_length]

theorem describes_digits {lo hi : Nat} : (digits K lo (some hi)).Describes (.run (Digits K lo hi)) :=
  Pat.describes_rep fun t => by simp [Digits]

theorem describes_exact {p : Char → Bool} {n : Nat} :
    (Pat.rep p n (some n)).Describes (.run fun w => w.length = n ∧ ∀ x ∈ w, p x = true) :=
  Pat.describes_rep fun t => by
    simp only [Option.some.injEq, forall_eq']
    constructor
    · rintro ⟨rfl, h2⟩; exact ⟨h2, le_refl _, le_refl _⟩
    · rintro ⟨h1, h2, h3⟩; exact ⟨by omega, h1⟩

/-- The type letter. -/
def kindForm : Form Char Char := ⟨fun c => typeLetter c = true, fun c => [c], fun _ => [], fun _ => []⟩

theorem describes_kind : (Pat.one typeLetter).Describes kindForm := by
  intro s h
  rw [mem_hits_one]
  constructor
  · rintro ⟨c, cs, rfl, hc, rfl⟩; exact ⟨c, cs, rfl, hc, rfl⟩
  · rintro ⟨c, cs, rfl, hc, rfl⟩; exact ⟨c, cs, rfl, hc, rfl⟩

def clockForm (K : Classes) : Form Char Clock := ⟨Clock.Valid K, Clock.text, fun _ => [], Clock.choices⟩

theorem describes_clock : (clockRe K).Describes (clockForm K) := by
  intro s h
  unfold clockRe
  rw [mem_hits_alt]
  constructor
  · rintro (⟨k, hk, rfl⟩ | ⟨k, hk, rfl⟩)
    · obtain ⟨a, ha, b, hb, rfl⟩ := mem_hits_seq.1 hk
      obtain ⟨w, r, rfl, hw, rfl⟩ := (describes_digits _ _).1 ha
      obtain ⟨c, hc, d, hd, rfl⟩ := mem_hits_seq.1 hb
      obtain ⟨x, xs, he, hx, rfl⟩ := mem_hits_one.1 hc
      obtain ⟨v, r', rfl, hv, rfl⟩ := (describes_digits _ _).1 hd
      rw [beq_iff_eq] at hx
      subst hx
      exact ⟨.time w v, r', by simpa [clockForm, Clock.text, Form.run, Form.hit] using he, ⟨hw, hv⟩, rfl⟩
    · obtain ⟨w, r, rfl, hw, rfl⟩ := (describes_digits _ _).1 hk
      exact ⟨.year w, r, rfl, hw, rfl⟩
  · rintro ⟨k, r, rfl, hk, rfl⟩
    cases k with
    | time hours minutes =>
      have h2 := (describes_digits (K := K) _ _).2 ⟨minutes, r, rfl, hk.2, rfl⟩
      have h1 := mem_hits_seq.2 ⟨_, (mem_hits_one (p := (· == ':'))).2 ⟨':', _, rfl, rfl, rfl⟩, _, h2, rfl⟩
      have h0 := (describes_digits (K := K) (hours ++ ':' :: (minutes ++ r)) _).2 ⟨hours, _, rfl, hk.1, rfl⟩
      have hk := mem_hits_seq.2 ⟨_, h0, _, h1, rfl⟩
      have hs : hours ++ ':' :: (minutes ++ r) = (clockForm K).text (.time hours minutes) ++ r := by
        simp [clockForm, Clock.text]
      rw [← hs]
      exact Or.inl ⟨_, hk, rfl⟩
    | year y => exact Or.inr ⟨_, (describes_digits _ _).2 ⟨y, r, rfl, hk, rfl⟩, rfl⟩

theorem mem_hits_lsRe {s : Str} {h : Hit Char} :
    h ∈ (lsRe K).hits s ↔ ∃ c : Cut, c.Valid K ∧ c.text = s ∧ h = c.hit := by
  have hdate : (dateRe K).Describes _ :=
    Pat.describes_seq describes_exact <| Pat.describes_seq describes_blanks <|
    Pat.describes_seq describes_digits <| Pat.describes_seq describes_blanks describes_clock
  have hline : (lsRe K).DescribesAll _ :=
    Pat.describesAll_seq (Pat.describes_group describes_kind) <|
    Pat.describesAll_seq (Pat.describes_group describes_exact) <|
    Pat.describesAll_seq describes_blanks <| Pat.describesAll_seq (Pat.describes_group describes_number) <|
    Pat.describesAll_seq describes_blanks <| Pat.describesAll_seq (Pat.describes_group describes_someText) <|
    Pat.describesAll_seq describes_blanks <| Pat.describesAll_seq (Pat.describes_group describes_someText) <|
    Pat.describesAll_seq describes_blanks <| Pat.describesAll_seq (Pat.describes_group describes_number) <|
    Pat.describesAll_seq describes_blanks <| Pat.describesAll_seq (Pat.describes_group hdate) <|
    Pat.describesAll_seq describes_blanks <| Pat.describesAll_seq (Pat.describes_group describes_someText)
    Pat.describesAll_eot
  rw [hline]
  constructor
  · rintro ⟨⟨kind, perms, gap1, links, gap2, owner, gap3, group, gap4, size, gap5,
      ⟨month, gap6, day, gap7, clock⟩, gap8, name, _⟩, rfl,
      ⟨hkind, hperms, hgap1, hlinks, hgap2, howner, hgap3, hgroup, hgap4, hsize, hgap5,
      ⟨hmonth, hgap6, hday, hgap7, hclock⟩, hgap8, hname, _⟩, rfl⟩
    refine ⟨⟨kind, perms, gap1, links, gap2, owner, gap3, group, gap4, size, gap5, month, gap6, day, gap7, clock,
      gap8, name⟩, ⟨hkind, hperms, hgap1, hlinks, hgap2, howner, hgap3, hgroup, hgap4, hsize, hgap5, hmonth,
      hgap6, hday, hgap7, hclock, hgap8, hname⟩, ?_, ?_⟩
    · simp [Cut.text, Cut.before, Cut.after, Cut.date, Form.andThen, Form.group, Form.run,
        Form.empty, kindForm, clockForm]
    · simp [Cut.hit, Cut.text, Cut.before, Cut.after, Cut.date, Cut.choices, Cut.beforeChoices, Form.hit,
        Form.andThen, Form.group,
        Form.run, Form.empty, kindForm, clockForm]
  · rintro ⟨⟨kind, perms, gap1, links, gap2, owner, gap3, group, gap4, size, gap5, month, gap6, day, gap7, clock,
      gap8, name⟩, ⟨hkind, hperms, hgap1, hlinks, hgap2, howner, hgap3, hgroup, hgap4, hsize, hgap5, hmonth,
      hgap6, hday, hgap7, hclock, hgap8, hname⟩, rfl, rfl⟩
    refine ⟨⟨kind, perms, gap1, links, gap2, owner, gap3, group, gap4, size, gap5,
      ⟨month, gap6, day, gap7, clock⟩, gap8, name, ()⟩, ?_,
      ⟨hkind, hperms, hgap1, hlinks, hgap2, howner, hgap3, hgroup, hgap4, hsize, hgap5,
      ⟨hmonth, hgap6, hday, hgap7, hclock⟩, hgap8, hname, trivial⟩, ?_⟩
    · simp [Cut.text, Cut.before, Cut.after, Cut.date, Form.andThen, Form.group, Form.run,
        Form.empty, kindForm, clockForm]
    · simp [Cut.hit, Cut.text, Cut.before, Cut.after, Cut.date, Cut.choices, Cut.beforeChoices, Form.hit,
        Form.andThen, Form.group,
        Form.run, Form.empty, kindForm, clockForm]

/-! ## The greediest cut -/

/-- `c` is the way the expression reads `line`: no other cut is greedier. -/
structure Reads (K : Classes) (line : Str) (c : Cut) : Prop where
  valid : c.Valid K
  text : c.text = line
  greediest : ∀ d : Cut, d.Valid K → d.text = line → ¬ Beats d.choices c.choices

theorem captures_of_reads {line : Str} {c : Cut} (h : Reads K line c) : (lsRe K).captures line = some c.hit := by
  have hmem := mem_hits_lsRe.2 ⟨c, h.valid, h.text, rfl⟩
  obtain ⟨k, hk⟩ := captures_isSome hmem
  obtain ⟨hkm, hbest⟩ := captures_eq_some.1 hk
  obtain ⟨d, hd, hdt, rfl⟩ := mem_hits_lsRe.1 hkm
  rcases hbest _ hmem with he | hb
  · rw [hk, he]
  · exact absurd hb (h.greediest d hd hdt)

theorem reads_of_captures {line : Str} {h : Hit Char} (hc : (lsRe K).captures line = some h) :
    ∃ c, Reads K line c ∧ h = c.hit := by
  obtain ⟨hm, hbest⟩ := captures_eq_some.1 hc
  obtain ⟨c, hv, ht, rfl⟩ := mem_hits_lsRe.1 hm
  refine ⟨c, ⟨hv, ht, fun d hd hdt hb => ?_⟩, rfl⟩
  rcases hbest _ (mem_hits_lsRe.2 ⟨d, hd, hdt, rfl⟩) with he | hb'
  · have hch : d.choices = c.choices := congrArg Hit.choices he
    rw [hch] at hb
    exact not_beats_self _ hb
  · exact hb.asymm hb'

theorem captures_none_iff {line : Str} :
    (lsRe K).captures line = none ↔ ∀ c : Cut, c.Valid K → c.text ≠ line := by
  constructor
  · intro h c hv ht
    obtain ⟨k, hk⟩ := captures_isSome (mem_hits_lsRe.2 ⟨c, hv, ht, rfl⟩)
    rw [h] at hk
    cases hk
  · intro h
    cases hc : (lsRe K).captures line with
    | none => rfl
    | some k =>
      obtain ⟨c, hr, _⟩ := reads_of_captures hc
      exact absurd hr.text (h c hr.valid)

/-- What is captured in a column. -/
theorem Reads.group {line : Str} {c : Cut} (h : Reads K line c) (i : Nat) :
    ((lsRe K).captures line).bind (·.group i) = c.hit.group i := by
  rw [captures_of_reads h]
  rfl

/-- A line with a cut has a greediest one. -/
theorem exists_reads {line : Str} {c : Cut} (hv : c.Valid K) (ht : c.text = line) : ∃ d, Reads K line d := by
  obtain ⟨k, hk⟩ := captures_isSome (mem_hits_lsRe.2 ⟨c, hv, ht, rfl⟩)
  obtain ⟨d, hd, _⟩ := reads_of_captures hk
  exact ⟨d, hd⟩

end

/-! ## The last place -/

namespace Cut

/-- Where the size column starts. -/
def placed (c : Cut) : Nat := (c.before ++ c.gap4).length

/-- The columns up to the group of `c`, the others of `d`. -/
def join (c d : Cut) : Cut :=
  { d with
    kind := c.kind, perms := c.perms, gap1 := c.gap1, links := c.links, gap2 := c.gap2, owner := c.owner,
    gap3 := c.gap3, group := c.group }

theorem join_valid {K : Classes} {c d : Cut} (hc : c.Valid K) (hd : d.Valid K) : (c.join d).Valid K :=
  ⟨hc.kind, hc.perms, hc.gap1, hc.links, hc.gap2, hc.owner, hc.gap3, hc.group, hd.gap4, hd.size, hd.gap5, hd.month,
    hd.gap6, hd.day, hd.gap7, hd.clock, hd.gap8, hd.name⟩

theorem join_text (c d : Cut) : (c.join d).text = c.before ++ d.after := rfl

/-- The group column with `t` after it. -/
def widen (c : Cut) (t : Str) : Cut := { c with group := c.group ++ t }

theorem widen_before (c : Cut) (t : Str) : (c.widen t).before = c.before ++ t := by
  simp [widen, before]

end Cut

section
variable {K : Classes}

/-- No cut of a line without newlines has its size column further to the right than the greediest:
what stands between could go to the group. -/
theorem Reads.last {line : Str} {c d : Cut} (h : Reads K line c) (hn : '\n' ∉ line) (hd : d.Valid K)
    (ht : d.text = line) : d.before.length ≤ c.before.length := by
  by_contra hlt
  have hpre : c.before <+: d.before := by
    have h1 : c.before <+: line := ⟨c.after, h.text⟩
    have h2 : d.before <+: line := ⟨d.after, ht⟩
    exact List.prefix_of_prefix_length_le h1 h2 (by omega)
  obtain ⟨t, ht'⟩ := hpre
  have htne : t ≠ [] := by rintro rfl; rw [List.append_nil] at ht'; rw [ht'] at hlt; omega
  have hgroup : '\n' ∉ c.group ++ t := by
    intro hm
    refine hn (ht ▸ List.mem_append.2 (Or.inl (ht' ▸ ?_)))
    rw [← c.widen_before]
    simp [Cut.before, Cut.widen] at hm ⊢
    tauto
  have hv : ((c.widen t).join d).Valid K :=
    Cut.join_valid { h.valid with group := ⟨hgroup, by simp [Cut.widen, htne]⟩ } hd
  refine h.greediest _ hv (by rw [Cut.join_text, Cut.widen_before, ht']; exact ht) ?_
  -- same columns up to the group, and a longer group
  refine Beats.append (x := ((c.widen t).join d).beforeChoices) (y := c.beforeChoices) ?_ _ _
  refine ⟨[c.perms.length, c.gap1.length, c.links.length, c.gap2.length, c.owner.length, c.gap3.length],
    (c.group ++ t).length, c.group.length, [], [], rfl, rfl, ?_⟩
  rw [List.length_append]
  have := List.length_pos_iff.2 htne
  omega

/-- No cut with the same text up to the group is greedier up to it. -/
theorem Reads.not_beats {line : Str} {c e : Cut} (h : Reads K line c) (he : e.Valid K) (hbefore : c.before = e.before) :
    ¬ Beats e.beforeChoices c.beforeChoices := by
  intro hbeats
  refine h.greediest _ (Cut.join_valid he h.valid) ?_ (hbeats.append _ _)
  rw [Cut.join_text, ← hbefore]
  exact h.text

/-- The owner and group columns depend only on the text up to the group. -/
theorem Reads.before_unique {l₁ l₂ : Str} {c d : Cut} (hc : Reads K l₁ c) (hd : Reads K l₂ d)
    (h : c.before = d.before) :
    c.kind = d.kind ∧ c.perms = d.perms ∧ c.owner = d.owner ∧ c.group = d.group := by
  have hch : c.beforeChoices = d.beforeChoices := by
    rcases beats_total (x := c.beforeChoices) (y := d.beforeChoices) rfl with he | hb | hb
    · exact he
    · exact absurd hb (hd.not_beats hc.valid h.symm)
    · exact absurd hb (hc.not_beats hd.valid h)
  simp only [Cut.beforeChoices, List.cons.injEq, and_true] at hch
  obtain ⟨h1, h2, h3, h4, h5, h6, h7⟩ := hch
  simp only [Cut.before, List.cons.injEq] at h
  obtain ⟨hkind, h⟩ := h
  obtain ⟨hperms, h⟩ := List.append_inj h h1
  obtain ⟨_, h⟩ := List.append_inj h h2
  obtain ⟨_, h⟩ := List.append_inj h h3
  obtain ⟨_, h⟩ := List.append_inj h h4
  obtain ⟨howner, h⟩ := List.append_inj h h5
  obtain ⟨_, hgroup⟩ := List.append_inj h h6
  exact ⟨hkind, hperms, howner, hgroup⟩

theorem head_append {a b : Str} {x : Char} (ha : a ≠ []) (h : (a ++ b).head? = some x) : x ∈ a := by
  cases a with
  | nil => exact absurd rfl ha
  | cons c a => simp at h; simp [h]

theorem Clock.text_ne_nil {k : Clock} (h : k.Valid K) : k.text ≠ [] := by
  cases k with
  | time hours minutes => simp [Clock.text]
  | year y =>
    rintro he
    have h2 : 4 ≤ y.length := h.2.1
    rw [show y = [] from he] at h2
    simp at h2

theorem Clock.head_not_white {k : Clock} (h : k.Valid K) {r : Str} {x : Char} (hx : (k.text ++ r).head? = some x) :
    isWhite x = false := by
  cases k with
  | time hours minutes =>
    simp only [Clock.text, List.append_assoc] at hx
    exact K.digit_not_white x (h.1.1 x (head_append (List.length_pos_iff.1 h.1.2.1) hx))
  | year y =>
    exact K.digit_not_white x (h.1 x (head_append (Clock.text_ne_nil (k := .year y) h) hx))

/-- A time or year in front of white space is settled by the text. -/
theorem Clock.unique {k l : Clock} (hk : k.Valid K) (hl : l.Valid K) {g g' r r' : Str} (hg : Gap g)
    (hg' : Gap g') (h : k.text ++ (g ++ r) = l.text ++ (g' ++ r')) : k = l ∧ g ++ r = g' ++ r' := by
  have hwhite : ∀ {w t : Str}, Gap w → ∀ x, (w ++ t).head? = some x → K.digit x = false := by
    intro w t hw x hx
    have hx' := hw.2 x (head_append hw.1 hx)
    by_contra hd
    rw [Bool.not_eq_false] at hd
    rw [K.digit_not_white x hd] at hx'
    cases hx'
  have hcolon : ∀ t : Str, ∀ x, (':' :: t).head? = some x → K.digit x = false := by
    intro t x hx
    cases hx
    rw [K.digit_ascii ':' (by decide)]
    decide
  have hmix : ∀ {w t : Str} {a : Str}, Gap w → ':' :: a ≠ w ++ t := by
    intro w t a hw he
    have := hw.2 ':' (head_append hw.1 (by rw [← he]; rfl))
    exact absurd this (by decide)
  cases k with
  | time hours minutes =>
    cases l with
    | time hours' minutes' =>
      simp only [Clock.text, List.append_assoc, List.cons_append] at h
      obtain ⟨rfl, h2⟩ := run_unique hk.1.1 hl.1.1 (hcolon _) (hcolon _) h
      obtain ⟨rfl, h3⟩ := run_unique hk.2.1 hl.2.1 (hwhite hg) (hwhite hg') (List.cons.inj h2).2
      exact ⟨rfl, h3⟩
    | year y =>
      simp only [Clock.text, List.append_assoc, List.cons_append] at h
      obtain ⟨_, h⟩ := run_unique hk.1.1 hl.1 (hcolon _) (hwhite hg') h
      exact absurd h (hmix hg')
  | year y =>
    cases l with
    | time hours' minutes' =>
      simp only [Clock.text, List.append_assoc, List.cons_append] at h
      obtain ⟨_, h⟩ := run_unique hk.1 hl.1.1 (hwhite hg) (hcolon _) h
      exact absurd h.symm (hmix hg)
    | year y' =>
      simp only [Clock.text] at h
      obtain ⟨rfl, h2⟩ := run_unique hk.1 hl.1 (hwhite hg) (hwhite hg') h
      exact ⟨rfl, h2⟩

theorem Gap.head_not {p : Char → Bool} (hp : ∀ x, p x = true → isWhite x = false) {g r : Str} (hg : Gap g) :
    ∀ x, (g ++ r).head? = some x → p x = false := by
  intro x hx
  have hw := hg.2 x (head_append hg.1 hx)
  by_contra h
  rw [Bool.not_eq_false] at h
  rw [hp x h] at hw
  cases hw

/-- Two cuts of one text with the same size column start agree from there to the name. -/
theorem Cut.place_unique {c d : Cut} (hc : c.Valid K) (hd : d.Valid K)
    (h : c.size ++ (c.gap5 ++ (c.date ++ (c.gap8 ++ c.name))) =
      d.size ++ (d.gap5 ++ (d.date ++ (d.gap8 ++ d.name)))) :
    c.size = d.size ∧ c.date = d.date ∧ c.gap8 ++ c.name = d.gap8 ++ d.name := by
  have hdigit := K.digit_not_white
  have hhead : ∀ {t r : Str} {q : Char → Bool}, (∀ x, q x = true → isWhite x = false) → t ≠ [] →
      (∀ x ∈ t, q x = true) → ∀ x, (t ++ r).head? = some x → isWhite x = false :=
    fun hq ht htq x hx => hq x (htq x (head_append ht hx))
  have hmonth : ∀ {e : Cut}, e.Valid K → e.month ≠ [] := fun he hn => by have := he.month.1; rw [hn] at this; cases this
  have hday : ∀ {e : Cut}, e.Valid K → e.day ≠ [] := fun he => List.length_pos_iff.1 he.day.2.1
  simp only [Cut.date, List.append_assoc] at h ⊢
  obtain ⟨hsize, h⟩ := run_unique hc.size.1 hd.size.1 (hc.gap5.head_not hdigit) (hd.gap5.head_not hdigit) h
  obtain ⟨hgap5, h⟩ := run_unique hc.gap5.2 hd.gap5.2 (hhead K.word_not_white (hmonth hc) hc.month.2)
    (hhead K.word_not_white (hmonth hd) hd.month.2) h
  obtain ⟨hm, h⟩ := List.append_inj h (by rw [hc.month.1, hd.month.1])
  obtain ⟨hgap6, h⟩ := run_unique hc.gap6.2 hd.gap6.2 (hhead hdigit (hday hc) hc.day.1)
    (hhead hdigit (hday hd) hd.day.1) h
  obtain ⟨hdy, h⟩ := run_unique hc.day.1 hd.day.1 (hc.gap7.head_not hdigit) (hd.gap7.head_not hdigit) h
  obtain ⟨hgap7, h⟩ := run_unique hc.gap7.2 hd.gap7.2 (fun _ => Clock.head_not_white hc.clock)
    (fun _ => Clock.head_not_white hd.clock) h
  obtain ⟨hclock, h⟩ := Clock.unique hc.clock hd.clock hc.gap8 hd.gap8 h
  exact ⟨hsize, by rw [hm, hgap6, hdy, hgap7, hclock], h⟩

/-- No cut of the line of `d` has its size column further to the right. -/
def Cut.LastPlace (K : Classes) (d : Cut) : Prop :=
  ∀ e : Cut, e.Valid K → e.text = d.text → e.placed ≤ d.placed

theorem Clock.not_white {k : Clock} (h : k.Valid K) : ∀ x ∈ k.text, isWhite x = false := by
  intro x hx
  cases k with
  | time hours minutes =>
    rcases List.mem_append.1 hx with hx | hx
    · exact K.digit_not_white x (h.1.1 x hx)
    · rcases List.mem_cons.1 hx with rfl | hx
      · decide
      · exact K.digit_not_white x (h.2.1 x hx)
  | year y => exact K.digit_not_white x (h.1 x hx)

/-- The words of the columns from the size on. -/
theorem Cut.tokens_after {c : Cut} (h : c.Valid K) :
    tokens (c.size ++ (c.gap5 ++ (c.date ++ (c.gap8 ++ c.name)))) =
      [c.size, c.month, c.day, c.clock.text] ++ tokens c.name := by
  have hmonth : c.month ≠ [] := fun hn => by have := h.month.1; rw [hn] at this; cases this
  have hday : c.day ≠ [] := List.length_pos_iff.1 h.day.2.1
  simp only [Cut.date, List.append_assoc]
  rw [tokens_append_blank h.gap5.1 h.gap5.2, tokens_append_blank h.gap6.1 h.gap6.2,
    tokens_append_blank h.gap7.1 h.gap7.2, tokens_append_blank h.gap8.1 h.gap8.2,
    tokens_word h.size.2 fun x hx => K.digit_not_white x (h.size.1 x hx),
    tokens_word hmonth fun x hx => K.word_not_white x (h.month.2 x hx),
    tokens_word hday fun x hx => K.digit_not_white x (h.day.1 x hx),
    tokens_word (Clock.text_ne_nil h.clock) (Clock.not_white h.clock)]
  rfl

/-- Three word characters are neither a time nor a year. -/
theorem Clock.not_month {k : Clock} (h : k.Valid K) : ¬ (k.text.length = 3 ∧ ∀ x ∈ k.text, K.word x = true) := by
  rintro ⟨hlen, hword⟩
  cases k with
  | time hours minutes =>
    have := hword ':' (by simp [Clock.text])
    rw [K.word_ascii ':' (by decide)] at this
    exact absurd this (by decide)
  | year y => have h2 := h.2.1; simp only [Clock.text] at hlen; omega

theorem Cut.text_split (c : Cut) :
    c.text = (c.before ++ c.gap4) ++ (c.size ++ (c.gap5 ++ (c.date ++ (c.gap8 ++ c.name)))) := by
  simp only [Cut.text, Cut.after, List.append_assoc]

/-- What stands between the size columns of two cuts of one text ends with white space. -/
theorem Cut.between {c d : Cut} (hd : d.Valid K) (h : d.text = c.text) (hlt : c.placed < d.placed) :
    ∃ y w, isWhite w = true ∧
      c.size ++ (c.gap5 ++ (c.date ++ (c.gap8 ++ c.name))) =
        y ++ w :: (d.size ++ (d.gap5 ++ (d.date ++ (d.gap8 ++ d.name)))) := by
  have hpre : c.before ++ c.gap4 <+: d.before ++ d.gap4 := by
    have h1 : c.before ++ c.gap4 <+: c.text := ⟨_, c.text_split.symm⟩
    have h2 : d.before ++ d.gap4 <+: c.text := ⟨_, by rw [← d.text_split, h]⟩
    exact List.prefix_of_prefix_length_le h1 h2 (Nat.le_of_lt hlt)
  obtain ⟨x, hx⟩ := hpre
  have hxne : x ≠ [] := by
    rintro rfl
    rw [List.append_nil] at hx
    exact absurd hlt (by unfold Cut.placed; rw [hx]; exact Nat.lt_irrefl _)
  obtain ⟨y, w, rfl⟩ : ∃ y w, x = y ++ [w] := ⟨x.dropLast, x.getLast hxne, (List.dropLast_append_getLast hxne).symm⟩
  refine ⟨y, w, ?_, ?_⟩
  · -- `w` is the last of the blanks in front of the second size
    refine hd.gap4.2 w ?_
    have hlast : (d.before ++ d.gap4).getLast? = some w := by rw [← hx, ← List.append_assoc, List.getLast?_concat]
    rw [List.getLast?_append_of_ne_nil _ hd.gap4.1] at hlast
    exact List.mem_of_getLast? hlast
  · rw [d.text_split, c.text_split, ← hx, List.append_assoc] at h
    have hback := (List.append_cancel_left h).symm
    rwa [List.append_assoc, List.singleton_append] at hback

/-- The words of a later place are words of the earlier one, with at least one more in front. -/
theorem Cut.tokens_later {c d : Cut} (hc : c.Valid K) (hd : d.Valid K) (h : d.text = c.text)
    (hlt : c.placed < d.placed) :
    ∃ ts, ts ≠ [] ∧ [c.size, c.month, c.day, c.clock.text] ++ tokens c.name =
      ts ++ ([d.size, d.month, d.day, d.clock.text] ++ tokens d.name) := by
  obtain ⟨y, w, hw, hback⟩ := Cut.between hd h hlt
  refine ⟨tokens y, ?_, ?_⟩
  · obtain ⟨x, xs, hx⟩ := List.exists_cons_of_ne_nil hc.size.2
    have hxw : isWhite x = false := K.digit_not_white x (hc.size.1 x (by rw [hx]; exact List.mem_cons_self))
    rw [hx] at hback
    cases y with
    | nil =>
      rw [List.cons_append, List.nil_append, List.cons.injEq] at hback
      rw [← hback.1, hxw] at hw
      cases hw
    | cons z zs =>
      rw [List.cons_append, List.cons_append, List.cons.injEq] at hback
      exact tokens_ne_nil (c := z) rfl (hback.1 ▸ hxw)
  · rw [← Cut.tokens_after hc, hback, tokens_append_cons y _ hw, Cut.tokens_after hd]

/-- A name without digits cannot complete a second place. -/
theorem Cut.lastPlace_of_no_digit {d : Cut} (hd : d.Valid K) (hname : ∀ x ∈ d.name, K.digit x = false) :
    d.LastPlace K := by
  intro e he ht
  by_contra hlt
  obtain ⟨ts, hne, htokens⟩ := Cut.tokens_later hd he ht (Nat.not_le.1 hlt)
  have hday : e.day ∉ tokens d.name := by
    intro hm
    obtain ⟨c, cs, hc⟩ := List.exists_cons_of_ne_nil (List.length_pos_iff.1 he.day.2.1)
    have hcm : c ∈ e.day := by rw [hc]; exact List.mem_cons_self
    have h1 := hname c (mem_of_mem_tokens hm hcm)
    rw [he.day.1 c hcm] at h1
    cases h1
  -- the second month would be the day or the time, or the second day a word of the name
  match ts, hne with
  | [_], _ =>
    simp at htokens
    have h1 := hd.day.2.2
    have h2 := he.month.1
    rw [← htokens.2.2.1] at h2
    omega
  | [_, _], _ =>
    simp at htokens
    exact Clock.not_month hd.clock (htokens.2.2.2.1 ▸ he.month)
  | [_, _, _], _ =>
    simp at htokens
    exact hday (by rw [htokens.2.2.2.2]; simp)
  | _ :: _ :: _ :: _ :: zs, _ =>
    simp at htokens
    exact hday (by rw [htokens.2.2.2.2]; simp)

theorem Cut.placed_eq (c : Cut) : c.placed = c.before.length + c.gap4.length := List.length_append

/-- No cut of a line without newlines has its size column further to the right than one blank behind the
group of the greediest: the other blanks could go to the group as well. -/
theorem Reads.placed_le {line : Str} {c d : Cut} (h : Reads K line c) (hn : '\n' ∉ line) (hd : d.Valid K)
    (ht : d.text = line) : d.placed ≤ c.before.length + 1 := by
  obtain ⟨b, x, hgap⟩ : ∃ b x, d.gap4 = b ++ [x] :=
    ⟨d.gap4.dropLast, d.gap4.getLast hd.gap4.1, (List.dropLast_append_getLast hd.gap4.1).symm⟩
  have hsub : ∀ y ∈ d.group ++ b, y ∈ d.text := by
    intro y hy
    simp only [Cut.text, Cut.before, Cut.after, hgap, List.mem_append, List.mem_cons] at hy ⊢
    tauto
  have hblank := hd.gap4.2
  rw [hgap, blank_append] at hblank
  let e : Cut := { d.widen b with gap4 := [x] }
  have hev : e.Valid K :=
    { hd with
      group := ⟨fun hm => hn (ht ▸ hsub _ hm), by simp [e, Cut.widen, hd.group.2]⟩
      gap4 := ⟨by simp [e], hblank.2⟩ }
  have het : e.text = line := by
    rw [← ht]
    simp [e, Cut.text, Cut.before, Cut.after, Cut.widen, Cut.date, hgap]
  have hbefore : e.before = d.before ++ b := d.widen_before b
  have h1 := h.last hn hev het
  rw [hbefore, List.length_append] at h1
  rw [Cut.placed_eq, hgap, List.length_append, List.length_singleton]
  omega

/-- On a line without newlines the greediest cut is at the last place. -/
theorem Reads.lastPlace {line : Str} {c : Cut} (h : Reads K line c) (hn : '\n' ∉ line) : c.LastPlace K := by
  intro e he ht
  have h1 := h.placed_le hn he (ht.trans h.text)
  have h2 := List.length_pos_iff.2 h.valid.gap4.1
  rw [c.placed_eq]
  omega

/-- The greediest cut puts the size column at the last place, behind a single blank. -/
theorem Reads.placed_eq {c d : Cut} (h : Reads K d.text c) (hn : '\n' ∉ d.text) (hd : d.Valid K)
    (hlast : d.LastPlace K) : c.placed = d.placed ∧ c.before.length + 1 = d.placed := by
  have h1 := h.placed_le hn hd rfl
  have h2 := hlast c h.valid h.text
  have h3 := List.length_pos_iff.2 h.valid.gap4.1
  have h4 := c.placed_eq
  omega

/-- A cut at the last place is read as it is, from the size to the date. -/
theorem Reads.at_last {c d : Cut} (h : Reads K d.text c) (hn : '\n' ∉ d.text) (hd : d.Valid K)
    (hlast : d.LastPlace K) :
    c.size = d.size ∧ c.date = d.date ∧ c.gap8 ++ c.name = d.gap8 ++ d.name ∧
      c.before = (d.before ++ d.gap4).dropLast := by
  obtain ⟨hp, hb⟩ := h.placed_eq hn hd hlast
  have htext := h.text
  rw [c.text_split, d.text_split] at htext
  obtain ⟨hfront, hback⟩ := List.append_inj htext hp
  obtain ⟨h1, h2, h3⟩ := Cut.place_unique h.valid hd hback
  refine ⟨h1, h2, h3, ?_⟩
  have hlen : c.gap4.length = 1 := by
    have := c.placed_eq
    omega
  obtain ⟨x, hx⟩ := List.length_eq_one_iff.1 hlen
  rw [← hfront, hx, List.dropLast_concat]

/-- Two lines with the same columns up to the size, both at their last place, are read with the same
columns. -/
theorem Reads.agree {c₁ c₂ d₁ d₂ : Cut} (h₁ : Reads K d₁.text c₁) (h₂ : Reads K d₂.text c₂)
    (hn₁ : '\n' ∉ d₁.text) (hn₂ : '\n' ∉ d₂.text) (hd₁ : d₁.Valid K) (hd₂ : d₂.Valid K)
    (hl₁ : d₁.LastPlace K) (hl₂ : d₂.LastPlace K) (hfront : d₁.before ++ d₁.gap4 = d₂.before ++ d₂.gap4) :
    c₁.kind = c₂.kind ∧ c₁.perms = c₂.perms ∧ c₁.owner = c₂.owner ∧ c₁.group = c₂.group :=
  Reads.before_unique h₁ h₂ (by
    rw [(h₁.at_last hn₁ hd₁ hl₁).2.2.2, (h₂.at_last hn₂ hd₂ hl₂).2.2.2, hfront])

/-- No white space is left in front of the name that could go to the gap. -/
def Cut.Snug (c : Cut) : Prop := (∀ x, c.name.head? = some x → isWhite x = false) ∨ c.name.length = 1

theorem Reads.snug {line : Str} {c : Cut} (h : Reads K line c) : c.Snug := by
  by_contra hno
  simp only [Cut.Snug, not_or, not_forall] at hno
  obtain ⟨⟨x, hx, hw⟩, hlen⟩ := hno
  obtain ⟨r, hr⟩ : ∃ r, c.name = x :: r := by
    cases hc : c.name with
    | nil => rw [hc] at hx; cases hx
    | cons y r => rw [hc] at hx; cases hx; exact ⟨r, rfl⟩
  have hrne : r ≠ [] := by rintro rfl; rw [hr] at hlen; exact hlen rfl
  have hrn : '\n' ∉ r := fun hm => h.valid.name.1 (by rw [hr]; exact List.mem_cons_of_mem _ hm)
  -- with `x` in the gap the cut is greedier
  let e : Cut := { c with gap8 := c.gap8 ++ [x], name := r }
  have hgap : Gap (c.gap8 ++ [x]) :=
    ⟨by simp, blank_append.2 ⟨h.valid.gap8.2, by simpa using hw⟩⟩
  have hev : e.Valid K := { h.valid with gap8 := hgap, name := ⟨hrn, hrne⟩ }
  refine h.greediest e hev ?_ ?_
  · rw [← h.text]; simp [e, Cut.text, Cut.before, Cut.after, Cut.date, hr]
  · have h1 : Beats [(c.gap8 ++ [x]).length, r.length] [c.gap8.length, c.name.length] :=
      beats_cons_of_lt (by rw [List.length_append, List.length_singleton]; omega)
    exact ((h1.append_left c.clock.choices).append_left _).append_left c.beforeChoices

/-- What follows the date is split in one way only. -/
theorem Cut.name_unique {c d : Cut} (hc : c.Valid K) (hd : d.Valid K) (hcs : c.Snug) (hds : d.Snug)
    (h : c.gap8 ++ c.name = d.gap8 ++ d.name) : c.name = d.name := by
  have key : ∀ {a b : Cut} {t : Str}, a.Valid K → b.Valid K → a.Snug → b.gap8 = a.gap8 ++ t → a.name = t ++ b.name →
      t = [] := by
    intro a b t _ hb ha hgap hname
    cases t with
    | nil => rfl
    | cons x t =>
      exfalso
      have hx : isWhite x = true := hb.gap8.2 x (by rw [hgap]; simp)
      rcases ha with ha | ha
      · rw [ha x (by rw [hname]; rfl)] at hx
        cases hx
      · have := List.length_pos_iff.2 hb.name.2
        rw [hname, List.length_append, List.length_cons] at ha
        omega
  rcases List.append_eq_append_iff.1 h with ⟨t, hgap, hname⟩ | ⟨t, hgap, hname⟩
  · rw [key hc hd hcs hgap hname] at hname
    exact hname
  · rw [key hd hc hds hgap hname] at hname
    exact hname.symm

/-- A cut at the last place that leaves no white space in front of the name has the name that is read. -/
theorem Reads.name_of_last {c d : Cut} (h : Reads K d.text c) (hn : '\n' ∉ d.text) (hd : d.Valid K)
    (hlast : d.LastPlace K) (hsnug : d.Snug) : c.kind = d.kind ∧ c.name = d.name := by
  obtain ⟨_, _, hname, _⟩ := h.at_last hn hd hlast
  exact ⟨(List.cons.inj h.text).1, Cut.name_unique h.valid hd h.snug hsnug hname⟩

end

/-! ## `parse_ls_output` on a cut -/

/-- The text up to the first arrow, and what stands between it and the next one. -/
def arrowCut (token : Str) : Str × Option PathBuf :=
  match splitFirst arrow token with
  | none => (token, none)
  | some (a, b) =>
    match splitFirst arrow b with
    | none => (a, some b)
    | some (target, _) => (a, some target)

theorem getNameAndLink_eq (token : Str) : getNameAndLink token = .ok (arrowCut token) := by
  have harrow : arrow ≠ [] := by decide
  unfold getNameAndLink arrowCut
  rw [split_eq harrow]
  cases splitFirst arrow token with
  | none => rfl
  | some p =>
    obtain ⟨a, b⟩ := p
    simp only [split_eq harrow b]
    cases splitFirst arrow b with
    | none => rfl
    | some q => obtain ⟨target, rest⟩ := q; rfl

theorem utf8Size_of_pexLetter {c : Char} (h : pexLetter c = true) : c.utf8Size = 1 := by
  simp only [pexLetter, Bool.or_eq_true, beq_iff_eq] at h
  rcases h with ((((((rfl | rfl) | rfl) | rfl) | rfl) | rfl) | rfl) | rfl <;> rfl

theorem byteLen_of_pexLetters {s : Str} (h : ∀ c ∈ s, pexLetter c = true) : byteLen s = s.length := by
  induction s with
  | nil => rfl
  | cons c cs ih =>
    rw [byteLen_cons, utf8Size_of_pexLetter (h c List.mem_cons_self),
      ih fun d hd => h d (List.mem_cons_of_mem c hd), List.length_cons, Nat.add_comm]

theorem slice_of_pexLetters {s : Str} (h : ∀ c ∈ s, pexLetter c = true) {lo hi : Nat} (hlo : lo ≤ hi)
    (hhi : hi ≤ s.length) : slice s lo hi = .ok ((s.take hi).drop lo) := by
  have htake : ∀ c ∈ s.take hi, pexLetter c = true := fun c hc => h c (List.mem_of_mem_take hc)
  have h1 : sliceTo s hi = some (s.take hi) := by
    refine sliceTo_eq_some.2 ⟨s.drop hi, (List.take_append_drop hi s).symm, ?_⟩
    rw [byteLen_of_pexLetters htake, List.length_take]; omega
  have h2 : sliceFrom (s.take hi) lo = some ((s.take hi).drop lo) := by
    refine sliceFrom_eq_some.2 ⟨(s.take hi).take lo, (List.take_append_drop lo _).symm, ?_⟩
    rw [byteLen_of_pexLetters fun c hc => htake c (List.mem_of_mem_take hc), List.length_take, List.length_take]
    omega
  simp [slice, h1, h2]

/-- The nine letters in three classes. -/
def modeOf (perms : Str) : UnixPex :=
  ⟨.ofU8 (pex ((perms.take 3).drop 0)), .ofU8 (pex ((perms.take 6).drop 3)), .ofU8 (pex ((perms.take 9).drop 6))⟩

namespace Cut

/-- The name the last column shows, and the target of a link. -/
def shown (c : Cut) : Str × Option PathBuf := if c.kind = 'l' then arrowCut c.name else (c.name, none)

def entryName (c : Cut) : Str := sanitize c.shown.1

def fileType (c : Cut) : FileType :=
  if c.shown.2.isSome then .symlink else if c.kind = 'd' then .directory else .file

def metadata (L : Libs) (thisYear : Int) (c : Cut) : Metadata where
  accessed := none
  created := none
  fileType := c.fileType
  gid := parseU32 c.group
  mode := some (modeOf c.perms)
  modified := some
    ((parseLstime L.chrono thisYear c.date "%b %d %Y".toList "%b %d %H:%M".toList).getD .UNIX_EPOCH)
  size := (parseU64 c.size).getD 0
  symlink := c.shown.2
  uid := parseU32 c.owner

def file (L : Libs) (thisYear : Int) (dir : PathBuf) (c : Cut) : File :=
  ⟨push dir c.entryName, c.metadata L thisYear⟩

end Cut

section
variable {L : Libs} {thisYear : Int} {dir : PathBuf} {line : Str}

/-- **`parse_ls_output` reports the greediest cut**, unless the name it shows is `.` or `..`. -/
theorem parseLsOutput_of_reads {c : Cut} (h : Reads L.classes line c) :
    parseLsOutput L thisYear dir line =
      if c.entryName = dot ∨ c.entryName = dotDot then .err () else .ok (c.file L thisYear dir) := by
  have hv := h.valid
  obtain ⟨hlen, hperms⟩ := hv.perms
  have hb : byteLen c.perms = 9 := by rw [byteLen_of_pexLetters hperms, hlen]
  have h1 := slice_of_pexLetters hperms (Nat.zero_le 3) (by omega : 3 ≤ c.perms.length)
  have h2 := slice_of_pexLetters hperms (by omega : 3 ≤ 6) (by omega : 6 ≤ c.perms.length)
  have h3 := slice_of_pexLetters hperms (by omega : 6 ≤ 9) (by omega : 9 ≤ c.perms.length)
  have hkind : c.kind = '-' ∨ c.kind = 'l' ∨ c.kind = 'd' := by
    simpa [typeLetter, or_assoc] using hv.kind
  unfold parseLsOutput
  rw [captures_of_reads h]
  have g1 : c.hit.group 1 = some [c.kind] := rfl
  have g2 : c.hit.group 2 = some c.perms := rfl
  have g4 : c.hit.group 4 = some c.owner := rfl
  have g5 : c.hit.group 5 = some c.group := rfl
  have g6 : c.hit.group 6 = some c.size := rfl
  have g7 : c.hit.group 7 = some c.date := rfl
  have g8 : c.hit.group 8 = some c.name := rfl
  have hlen : ¬ c.hit.caps.length + 1 < 8 := by simp [Cut.hit]
  simp only [hlen, g1, g2, g4, g5, g6, g7, g8, Out.unwrap_some, Out.ok_bind, hb, h1, h2, h3, ↓reduceIte, Nat.lt_irrefl]
  rcases hkind with hk | hk | hk <;>
    simp [hk, lsType, getNameAndLink_eq, Cut.entryName, Cut.shown, Cut.file, Cut.metadata, Cut.fileType, modeOf]

theorem parseLsOutput_of_no_cut (h : ∀ c : Cut, c.Valid L.classes → c.text ≠ line) :
    parseLsOutput L thisYear dir line = .err () := by
  unfold parseLsOutput
  rw [captures_none_iff.2 h]

/-- A line that gives a `File` has a greediest cut, and the `File` is made from it. -/
theorem reads_of_parse {f : File} (h : parseLsOutput L thisYear dir line = .ok f) :
    ∃ c, Reads L.classes line c ∧ f = c.file L thisYear dir ∧ c.entryName ≠ dot ∧ c.entryName ≠ dotDot := by
  by_cases hcut : ∃ c : Cut, c.Valid L.classes ∧ c.text = line
  · obtain ⟨d, hd, ht⟩ := hcut
    obtain ⟨c, hc⟩ := exists_reads hd ht
    rw [parseLsOutput_of_reads hc] at h
    split at h
    · cases h
    · rename_i hname
      cases h
      exact ⟨c, hc, rfl, fun he => hname (Or.inl he), fun he => hname (Or.inr he)⟩
  · rw [parseLsOutput_of_no_cut fun c hv ht => hcut ⟨c, hv, ht⟩] at h
    cases h

/-- A line gives a `File` or is rejected; no `unwrap` or slice fails on it. -/
theorem parseLsOutput_cases (L : Libs) (thisYear : Int) (dir : PathBuf) (line : Str) :
    (∃ f, parseLsOutput L thisYear dir line = .ok f) ∨ parseLsOutput L thisYear dir line = .err () := by
  by_cases hcut : ∃ c : Cut, c.Valid L.classes ∧ c.text = line
  · obtain ⟨d, hd, ht⟩ := hcut
    obtain ⟨c, hc⟩ := exists_reads hd ht
    rw [parseLsOutput_of_reads hc]
    split
    · exact Or.inr rfl
    · exact Or.inl ⟨_, rfl⟩
  · exact Or.inr (parseLsOutput_of_no_cut fun c hv ht => hcut ⟨c, hv, ht⟩)

end

end RemotefsSsh
