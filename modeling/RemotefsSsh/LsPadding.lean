import Mathlib.Data.List.DropRight
import RemotefsSsh.ExitCode
import RemotefsSsh.LsLines

/-!
# The owner and group columns and the blanks between them

The expression takes the longest owner it can, so the owner and the group that are read are what stands
before and behind the last white space in front of the size that has something behind it
(`Reads.owner_group`). Padding moves that place: `Columns.uid` and `Columns.gid` are the numbers that
come out.
-/

namespace RemotefsSsh

open Utf8 UnixPath Backtrack

/-! ## Where the owner ends -/

section
variable {K : Classes}

/-- A run of white space in front of something else is settled by the text; the longer of two runs would
have to go on in what follows the shorter. -/
theorem white_run_le {a b r s : Str} (hb : Blank b) (hs : ∀ x, s.head? = some x → isWhite x = false)
    (h : b ++ r = a ++ s) : b.length ≤ a.length := by
  by_contra hlt
  rcases List.append_eq_append_iff.1 h with ⟨t, ht, -⟩ | ⟨t, ht, hst⟩
  · have := congrArg List.length ht
    rw [List.length_append] at this
    omega
  · cases t with
    | nil =>
      rw [List.append_nil] at ht
      rw [ht] at hlt
      exact hlt (Nat.le_refl _)
    | cons x t =>
      have hx := hs x (by rw [hst]; rfl)
      rw [hb x (by rw [ht]; simp)] at hx
      cases hx

/-- The end of the last white space that has something behind it: an owner that does not end before it ends
there. -/
theorem owner_ends_at {owner gap group o p : Str} {x : Char}
    (h : owner ++ (gap ++ group) = o ++ x :: p) (hgap : Gap gap)
    (hgroup : group ≠ []) (hword : ∀ y ∈ p.dropLast, isWhite y = false) (hlen : o.length ≤ owner.length) :
    owner = o ∧ group = p := by
  -- no white space in `p` has anything behind it
  have hinner : ∀ {s t : Str} {y : Char}, p = s ++ y :: t → isWhite y = true → t = [] := by
    intro s t y hpt hy
    by_contra ht
    have hmem : y ∈ p.dropLast := by
      rw [hpt, List.dropLast_append_of_ne_nil (List.cons_ne_nil _ _), List.dropLast_cons_of_ne_nil ht]
      simp
    rw [hword y hmem] at hy
    cases hy
  obtain ⟨z, zs, rfl⟩ := List.exists_cons_of_ne_nil hgap.1
  have hz : isWhite z = true := hgap.2 z List.mem_cons_self
  have hlen' : owner.length = o.length := by
    refine Nat.le_antisymm (Nat.not_lt.1 fun hlt => ?_) hlen
    rcases List.append_eq_append_iff.1 h with ⟨t, ht, -⟩ | ⟨t, ht, hpt⟩
    · have := congrArg List.length ht
      rw [List.length_append] at this
      omega
    · cases t with
      | nil =>
        rw [List.append_nil] at ht
        rw [ht] at hlt
        exact Nat.lt_irrefl _ hlt
      | cons y t =>
        rw [List.cons_append, List.cons.injEq] at hpt
        exact hgroup (List.append_eq_nil_iff.1 (hinner hpt.2 hz)).2
  obtain ⟨howner, htail⟩ := List.append_inj h hlen'
  refine ⟨howner, ?_⟩
  rw [List.cons_append, List.cons.injEq] at htail
  cases zs with
  | nil => exact htail.2
  | cons y zs =>
    have hy : isWhite y = true := hgap.2 y (by simp)
    exact absurd (List.append_eq_nil_iff.1 (hinner (s := []) htail.2.symm hy)).2 hgroup

/-- Up to the links the columns are settled by the text. -/
theorem Cut.front_unique {c e : Cut} (hc : c.Valid K) (he : e.Valid K) (h : c.before = e.before) :
    c.perms = e.perms ∧ c.gap1 = e.gap1 ∧ c.links = e.links ∧
      c.gap2 ++ (c.owner ++ (c.gap3 ++ c.group)) = e.gap2 ++ (e.owner ++ (e.gap3 ++ e.group)) := by
  simp only [Cut.before, List.cons.injEq] at h
  obtain ⟨hperms, h⟩ := List.append_inj h.2 (by rw [hc.perms.1, he.perms.1])
  have hdigit : ∀ {l r : Str}, Number K l → ∀ y, (l ++ r).head? = some y → isWhite y = false := fun hl y hy =>
    K.digit_not_white y (hl.1 y (head_append hl.2 hy))
  obtain ⟨hgap1, h⟩ := run_unique hc.gap1.2 he.gap1.2 (hdigit hc.links) (hdigit he.links) h
  obtain ⟨hlinks, h⟩ := run_unique hc.links.1 he.links.1 (hc.gap2.head_not K.digit_not_white)
    (he.gap2.head_not K.digit_not_white) h
  exact ⟨hperms, hgap1, hlinks, h⟩

/-- Of two cuts with the same text up to the group, the one that is read has the longer owner, if the owner of
the other does not start with white space. -/
theorem Reads.owner_le {line : Str} {c e : Cut} (h : Reads K line c) (he : e.Valid K) (hbefore : c.before = e.before)
    (howner : ∀ x, e.owner.head? = some x → isWhite x = false) :
    e.owner.length ≤ c.owner.length ∧ c.owner ++ (c.gap3 ++ c.group) = e.owner ++ (e.gap3 ++ e.group) := by
  obtain ⟨hperms, hgap1, hlinks, htext⟩ := Cut.front_unique h.valid he hbefore
  have hgap2 : c.gap2.length = e.gap2.length := by
    refine Nat.le_antisymm (white_run_le h.valid.gap2.2 (fun y hy => ?_) htext)
      (Nat.not_lt.1 fun hlt => h.not_beats he hbefore ?_)
    · rw [List.head?_append_of_ne_nil _ he.owner.2] at hy
      exact howner y hy
    · exact ⟨[c.perms.length, c.gap1.length, c.links.length], e.gap2.length, c.gap2.length,
        [e.owner.length, e.gap3.length, e.group.length], [c.owner.length, c.gap3.length, c.group.length],
        by simp [Cut.beforeChoices, hperms, hgap1, hlinks], rfl, hlt⟩
  refine ⟨Nat.not_lt.1 fun hlt => h.not_beats he hbefore ?_, (List.append_inj htext hgap2).2⟩
  exact ⟨[c.perms.length, c.gap1.length, c.links.length, c.gap2.length], e.owner.length, c.owner.length,
    [e.gap3.length, e.group.length], [c.gap3.length, c.group.length],
    by simp [Cut.beforeChoices, hperms, hgap1, hlinks, hgap2], rfl, hlt⟩

/-- **The owner ends at the last white space in front of the size that has something behind it**, for a cut at
the last place whose owner does not start with white space. -/
theorem Reads.owner_group {c d : Cut} (h : Reads K d.text c) (hn : '\n' ∉ d.text) (hd : d.Valid K)
    (hlast : d.LastPlace K)
    (howner : ∀ x, d.owner.head? = some x → isWhite x = false) {o p : Str} {x : Char}
    (hx : isWhite x = true) (ho : o ≠ [])
    (hp : p ≠ []) (hword : ∀ y ∈ p.dropLast, isWhite y = false)
    (hsplit : d.owner ++ (d.gap3 ++ (d.group ++ d.gap4.dropLast)) = o ++ x :: p) : c.owner = o ∧ c.group = p := by
  -- the cut that ends the owner there
  let e : Cut := { d with owner := o, gap3 := [x], group := p }
  have hbefore : c.before = e.before := by
    rw [(h.at_last hn hd hlast).2.2.2, List.dropLast_append_of_ne_nil hd.gap4.1]
    simp only [Cut.before, e, List.cons_append, List.append_assoc, List.nil_append, hsplit]
  have hmem : ∀ y ∈ o ++ x :: p, y ∈ d.text := by
    intro y hy
    rw [← hsplit] at hy
    simp only [Cut.text, Cut.before, Cut.after, List.mem_append, List.mem_cons] at hy ⊢
    rcases hy with hy | hy | hy | hy
    · tauto
    · tauto
    · tauto
    · have := List.dropLast_subset _ hy
      tauto
  have hev : e.Valid K :=
    { hd with
      owner := ⟨fun hm => hn (hmem _ (List.mem_append_left _ hm)), ho⟩
      gap3 := ⟨List.cons_ne_nil _ _, by simpa [e] using hx⟩
      group := ⟨fun hm => hn (hmem _ (List.mem_append_right _ (List.mem_cons_of_mem _ hm))), hp⟩ }
  have hohead : ∀ y, o.head? = some y → isWhite y = false := by
    intro y hy
    refine howner y ?_
    have hhead := congrArg List.head? hsplit
    rwa [List.head?_append_of_ne_nil _ hd.owner.2, List.head?_append_of_ne_nil _ ho, hy] at hhead
  obtain ⟨hlen, htext⟩ := h.owner_le hev hbefore hohead
  exact owner_ends_at htext h.valid.gap3 h.valid.group.2 hword hlen

end

/-! ## The numbers in the two columns -/

/-- What stands behind the last white space. -/
def lastWord (s : Str) : Str := s.rtakeWhile fun c => !isWhite c

theorem not_white_lastWord {s : Str} : ∀ c ∈ lastWord s, isWhite c = false := fun c hc => by
  simpa using List.mem_rtakeWhile_imp hc

theorem lastWord_of_not_white {s : Str} (h : ∀ c ∈ s, isWhite c = false) : lastWord s = s := by
  unfold lastWord
  rw [List.rtakeWhile_eq_self_iff]
  simpa using h

/-- A text with white space in it is split at the last of it. -/
theorem lastWord_split {s : Str} (h : ∃ c ∈ s, isWhite c = true) :
    ∃ a x, isWhite x = true ∧ s = a ++ x :: lastWord s := by
  have hsplit : s.rdropWhile (fun c => !isWhite c) ++ lastWord s = s := List.rdropWhile_append_rtakeWhile
  have hne : s.rdropWhile (fun c => !isWhite c) ≠ [] := by
    intro hnil
    rw [List.rdropWhile_eq_nil_iff] at hnil
    obtain ⟨c, hc, hw⟩ := h
    simpa [hw] using hnil c hc
  refine ⟨(s.rdropWhile fun c => !isWhite c).dropLast, (s.rdropWhile fun c => !isWhite c).getLast hne, ?_, ?_⟩
  · simpa using List.rdropWhile_last_not _ _ hne
  · rw [← List.singleton_append, ← List.append_assoc, List.dropLast_append_getLast, hsplit]

theorem parseU32_of_white {s : Str} (h : ∃ c ∈ s, isWhite c = true) : parseU32 s = none := by
  obtain ⟨c, hc, hw⟩ := h
  cases hp : parseU32 s with
  | none => rfl
  | some v =>
    rw [not_white_of_parseU32 hp c hc] at hw
    cases hw

theorem replicate_white {n : Nat} (h : 0 < n) : ∃ c ∈ List.replicate n ' ', isWhite c = true :=
  ⟨' ', List.mem_replicate.2 ⟨Nat.pos_iff_ne_zero.1 h, rfl⟩, isWhite_space⟩

theorem parseU32_padded (s : Str) (n : Nat) : parseU32 (s ++ List.replicate n ' ') = if n =
    0 then parseU32 s else none := by
  by_cases hn : n = 0
  · rw [if_pos hn, hn, List.replicate_zero, List.append_nil]
  · obtain ⟨c, hc, hw⟩ := replicate_white (Nat.pos_iff_ne_zero.2 hn)
    rw [if_neg hn, parseU32_of_white ⟨c, List.mem_append_right _ hc, hw⟩]

/-- Of a word with at most one blank behind it only the last character can be white. -/
theorem not_white_padded {s : Str} {n : Nat} (hs : ∀ c ∈ s, isWhite c = false) (hn : n ≤ 1) :
    ∀ c ∈ (s ++ List.replicate n ' ').dropLast, isWhite c = false := by
  rcases Nat.le_one_iff_eq_zero_or_eq_one.1 hn with rfl | rfl
  · intro c hc
    rw [List.replicate_zero, List.append_nil] at hc
    exact hs c (List.dropLast_subset _ hc)
  · rw [List.replicate_one, List.dropLast_concat]
    exact hs

theorem pad_eq (n : Nat) : pad n = List.replicate n ' ' ++ [' '] := List.replicate_succ'

namespace Columns

/-- The owner as it is read: the number in its column, with a single blank behind it, at most two behind the
group and none within. -/
def uid (k : Columns) : Option UInt32 :=
  if k.pads .group = 0 ∧ k.pads .size ≤ 1 ∧ k.group.any isWhite = false then parseU32 k.owner else none

/-- The group as it is read: its last word, with a single blank behind it. -/
def gid (k : Columns) : Option UInt32 := if k.pads .size = 0 then parseU32 (lastWord k.group) else none

section
variable {K : Classes} {k : Columns} {letter : Char} {shown : Str} {c : Cut}

/-- The owner and the group that are read, by the last white space between them that has something behind it. -/
theorem read_split (h : Reads K (k.cut letter shown).text c) (hn : '\n' ∉ (k.cut letter shown).text)
    (hd : (k.cut letter shown).Valid K) (hlast : (k.cut letter shown).LastPlace K)
    (howner : ∀ x, k.owner.head? = some x → isWhite x = false) {o p : Str} {x : Char}
    (hx : isWhite x = true) (ho : o ≠ [])
    (hp : p ≠ []) (hword : ∀ y ∈ p.dropLast, isWhite y = false)
    (hsplit : k.owner ++ (pad (k.pads .group) ++ (k.group ++ List.replicate (k.pads .size) ' ')) = o ++ x :: p) :
    c.owner = o ∧ c.group = p := by
  refine h.owner_group hn hd hlast howner hx ho hp hword ?_
  rw [← hsplit]
  show k.owner ++ (pad (k.pads .group) ++ (k.group ++ (pad (k.pads .size)).dropLast)) = _
  rw [pad_eq (k.pads .size), List.dropLast_concat]

/-- **What is read of owner and group**, when the columns are at the last place. -/
theorem uid_gid (h : Reads K (k.cut letter shown).text c) (hn : '\n' ∉ (k.cut letter shown).text)
    (hd : (k.cut letter shown).Valid K) (hlast : (k.cut letter shown).LastPlace K)
    (howner : ∀ x, k.owner.head? = some x → isWhite x = false)
    (hgroup : ∀ x, k.group.getLast? = some x → isWhite x = false) :
    parseU32 c.owner = k.uid ∧ parseU32 c.group = k.gid := by
  have hread := @read_split K k letter shown c h hn hd hlast howner
  have hone := k.owner_text.2
  have hgne := k.group_text.2
  have hgap : ∃ y ∈ pad (k.pads .group), isWhite y = true := ⟨' ', by rw [pad_eq]; simp, isWhite_space⟩
  by_cases hpad : 2 ≤ k.pads .size
  · -- the owner takes the group, and the group is a blank
    obtain ⟨b, hb⟩ : ∃ b, k.pads .size = b + 2 := ⟨k.pads .size - 2, by omega⟩
    obtain ⟨ho, hp⟩ := hread (o := k.owner ++ (pad (k.pads .group) ++ (k.group ++ List.replicate b ' ')))
      (x := ' ') (p := [' '])
      isWhite_space (by simp [hone]) (by simp) (by simp) (by rw [hb]; simp [List.replicate_succ'])
    rw [ho, hp]
    unfold uid gid
    rw [if_neg (by omega), if_neg (by omega)]
    refine ⟨parseU32_of_white ?_, parseU32_of_white ⟨' ', by simp, isWhite_space⟩⟩
    obtain ⟨y, hy, hw⟩ := hgap
    exact ⟨y, by simp [hy], hw⟩
  · by_cases hwhite : ∃ y ∈ k.group, isWhite y = true
    · -- the owner takes the group up to its last word
      obtain ⟨a, y, hy, hsplit⟩ := lastWord_split hwhite
      have hword : lastWord k.group ≠ [] := by
        intro hnil
        rw [hnil] at hsplit
        rw [hgroup y (by rw [hsplit, List.getLast?_concat])] at hy
        cases hy
      obtain ⟨ho, hp⟩ := hread (o := k.owner ++ (pad (k.pads .group) ++ a)) (x := y)
        (p := lastWord k.group ++ List.replicate (k.pads .size) ' ') hy (by simp [hone]) (by simp [hword])
        (not_white_padded not_white_lastWord (by omega)) (by nth_rewrite 1 [hsplit]; simp)
      rw [ho, hp, parseU32_padded]
      unfold uid gid
      rw [if_neg (by simp [List.any_eq_true.2 hwhite])]
      refine ⟨parseU32_of_white ?_, rfl⟩
      obtain ⟨z, hz, hw⟩ := hgap
      exact ⟨z, by simp [hz], hw⟩
    · have hwhite : ∀ y ∈ k.group, isWhite y = false := by simpa using hwhite
      obtain ⟨ho, hp⟩ := hread (o := k.owner ++ List.replicate (k.pads .group) ' ') (x := ' ')
        (p := k.group ++ List.replicate (k.pads .size) ' ') isWhite_space (by simp [hone]) (by simp [hgne])
        (not_white_padded hwhite (by omega)) (by rw [pad_eq]; simp)
      rw [ho, hp, parseU32_padded, parseU32_padded]
      unfold uid gid
      rw [lastWord_of_not_white hwhite]
      refine ⟨if_congr ?_ rfl rfl, rfl⟩
      constructor
      · intro h2
        exact ⟨h2, by omega, by simpa using hwhite⟩
      · rintro ⟨h2, -⟩
        exact h2

/-- What is read of a line whose own columns are at the last place. -/
structure ReadAs (k : Columns) (letter : Char) (shown : Str) (c : Cut) : Prop where
  kind : c.kind = letter
  perms : c.perms = k.perms
  uid : parseU32 c.owner = k.uid
  gid : parseU32 c.group = k.gid
  size : c.size = decimal k.size
  date : c.date = (k.cut letter shown).date
  shown : c.shown = (k.cut letter shown).shown

theorem ReadAs.entryName (h : k.ReadAs letter shown c) : c.entryName = (k.cut letter shown).entryName := by
  unfold Cut.entryName
  rw [h.shown]

/-- With `n` further blanks in front of the last column. -/
def spaced (n : Nat) (shown : Str) : Str := List.replicate n ' ' ++ shown

theorem txt_spaced {n : Nat} (hshown : Txt shown) : Txt (spaced n shown) := by
  refine ⟨fun h => ?_, by simp [spaced, hshown.2]⟩
  rcases List.mem_append.1 h with h | h
  · have := List.eq_of_mem_replicate h
    revert this
    decide
  · exact hshown.1 h

/-- The blanks as part of the gap. -/
theorem cut_spaced (n : Nat) :
    (k.cut letter (spaced n shown)).text = { k.cut letter shown with gap8 := pad n }.text := by
  simp [cut, spaced, pad, Cut.text, Cut.before, Cut.after, Cut.date, List.replicate_succ]

theorem readAs_spaced {n : Nat} (hflag : k.flag = none) (hshort : k.clock.Short) (hletter : typeLetter letter = true)
    (hshown : Txt shown) (hhead : ∀ x, shown.head? = some x → isWhite x = false)
    (howner : ∀ x, k.owner.head? = some x → isWhite x = false)
    (hgroup : ∀ x, k.group.getLast? = some x → isWhite x = false) (hlast : (k.cut letter (spaced n shown)).LastPlace K)
    (h : Reads K (k.line letter (spaced n shown)) c) : k.ReadAs letter shown c := by
  have hd : (k.cut letter (spaced n shown)).Valid K := cut_valid hshort hletter (txt_spaced hshown)
  have hn : '\n' ∉ k.line letter (spaced n shown) :=
    k.newline_line (by rintro rfl; cases hletter) (txt_spaced hshown).1
  rw [← cut_text hflag] at h hn
  obtain ⟨hsize, hdate, -, -⟩ := h.at_last hn hd hlast
  obtain ⟨huid, hgid⟩ := uid_gid h hn hd hlast howner hgroup
  -- the same line, with the blanks in front of the last column in the gap
  let e : Cut := { k.cut letter shown with gap8 := pad n }
  have he : e.Valid K := { cut_valid (K := K) hshort hletter hshown with gap8 := gap_pad n }
  have htext : e.text = (k.cut letter (spaced n shown)).text := (cut_spaced n).symm
  have hlast' : e.LastPlace K := fun d hd' ht => hlast d hd' (ht.trans htext)
  obtain ⟨hkind, hcol⟩ := entryName_of_last h hn he htext hlast' (Or.inl hhead)
  have hperms : c.perms = k.perms := by
    have htext := h.text
    simp only [Cut.text, Cut.before, List.cons_append, List.append_assoc, List.cons.injEq] at htext
    exact (List.append_inj htext.2 (by rw [h.valid.perms.1, hd.perms.1])).1
  exact ⟨hkind, hperms, huid, hgid, hsize, hdate, hcol⟩

theorem readAs_of_last (hflag : k.flag = none) (hshort : k.clock.Short) (hletter : typeLetter letter = true)
    (hshown : Txt shown) (hhead : ∀ x, shown.head? = some x → isWhite x = false)
    (howner : ∀ x, k.owner.head? = some x → isWhite x = false)
    (hgroup : ∀ x, k.group.getLast? = some x → isWhite x = false) (hlast : (k.cut letter shown).LastPlace K)
    (h : Reads K (k.line letter shown) c) : k.ReadAs letter shown c :=
  readAs_spaced (n := 0) hflag hshort hletter hshown hhead howner hgroup hlast h

end

end Columns

end RemotefsSsh
