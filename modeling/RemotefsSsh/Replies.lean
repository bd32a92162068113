import RemotefsSsh.ExitCode

/-!
# What is kept of a reply (ssh/commons.rs:351-381)

`perform_shell_cmd_with_rc` cuts the reply at an offset that it counts in the trimmed text. When the cut lies
between two characters, what is dropped is white space and the numeral of the exit code
(`performShellCmdWithRc_keeps_output`). When it does not, the slice panics: that is so unless the white space
in front of the reply is as long as some characters in front of the last line (`performShellCmdWithRc_returns_iff`).
-/

namespace RemotefsSsh

open Utf8 UnixPath Effect Prog

/-! ## Nothing but white space and the exit code is dropped -/

/-- A decimal numeral, also with a `+` in front. -/
def Numeral (d : Str) (v : Nat) : Prop :=
  ∃ ds, (d = ds ∨ d = '+' :: ds) ∧ ds ≠ [] ∧ (∀ c ∈ ds, c.isDigit = true) ∧ Nat.ofDigitChars 10 ds 0 = v

theorem numeral_of_parseU32 {d : Str} {v : UInt32} (h : parseU32 d = some v) : Numeral d v.toNat := by
  have h := parseU32_eq_some.1 h
  unfold parseUnsigned at h
  split at h
  · obtain ⟨hne, hdigits, hval⟩ := parseDigits_eq_some.1 h
    exact ⟨_, Or.inr rfl, hne, hdigits, hval⟩
  · obtain ⟨hne, hdigits, hval⟩ := parseDigits_eq_some.1 h
    exact ⟨_, Or.inl rfl, hne, hdigits, hval⟩

/-- The reply is the output, white space, the exit code and white space. -/
def KeepsOutput (reply out : Str) (rc : UInt32) : Prop :=
  ∃ w₁ d w₂, Blank w₁ ∧ Blank w₂ ∧ Numeral d rc.toNat ∧ reply = out ++ (w₁ ++ (d ++ w₂))

theorem keepsOutput_of_lines {a u w b : Str} (ha : Blank a) (hb : Blank b) (ht : Tight (u ++ '\n' :: w)) (hw : '\n' ∉ w)
    {out : Str} {rc : UInt32} (h : rcOfOutput (a ++ (u ++ '\n' :: w) ++ b) = .ok (rc, out)) :
    KeepsOutput (a ++ (u ++ '\n' :: w) ++ b) out rc := by
  obtain ⟨x, y, k, y', hxy, hyb, -, hk, -, rfl, hparse⟩ := rcOfOutput_lines_ok ha hb ht hw h
  obtain ⟨b', hsplit, hw₁, hw₂, -⟩ := trim_split w
  -- the character behind the cut is white space or the newline
  have hblank : Blank (k :: y') := by
    rw [← hk]
    exact blank_append.2 ⟨hyb, newline_blank⟩
  refine ⟨y' ++ w.takeWhile isWhite, trim w, b' ++ b, blank_append.2 ⟨(blank_cons.1 hblank).2, hw₁⟩,
    blank_append.2 ⟨hw₂, hb⟩, numeral_of_parseU32 hparse, ?_⟩
  calc a ++ (u ++ '\n' :: w) ++ b
      = (a ++ u) ++ (['\n'] ++ (w ++ b)) := by simp
    _ = x ++ ((y ++ ['\n']) ++ (w ++ b)) := by rw [hxy]; simp
    _ = (x ++ [k]) ++ (y' ++ (w ++ b)) := by rw [hk]; simp
    _ = (x ++ [k]) ++ ((y' ++ w.takeWhile isWhite) ++ (trim w ++ (b' ++ b))) := by
      nth_rewrite 1 [hsplit]
      simp

theorem rcOfOutput_keeps {reply out : Str} {rc : UInt32} (h : rcOfOutput reply = .ok (rc, out)) :
    KeepsOutput reply out rc := by
  obtain ⟨b, hsplit, ha, hb, ht⟩ := trim_split reply
  generalize List.takeWhile isWhite reply = a at hsplit ha
  generalize trim reply = t at hsplit ht
  subst hsplit
  by_cases hn : '\n' ∈ t
  · obtain ⟨u, w, rfl, hw⟩ := exists_last hn
    exact keepsOutput_of_lines ha hb ht hw h
  · rw [rcOfOutput_single ha hb ht hn] at h
    split at h <;> rename_i hparse
    · cases h
      exact ⟨a, t, b, ha, hb, numeral_of_parseU32 hparse, by simp⟩
    · cases h

section
variable {κ σ : Type} {H : Handler Ssh σ} {st st' : St Ssh κ σ}

/-- **Of a reply with an exit code only white space and the exit code are dropped.** -/
theorem performShellCmdWithRc_keeps_output {session : SshSession} {cmd reply out : Str} {rc : UInt32}
    (h : (performShellCmd session (cmd ++ ShellCmd.rcTail) : Remote κ σ _) H st = (.ok reply, st'))
    (hok : ((performShellCmdWithRc session cmd : Remote κ σ _) H st).1 = .ok (rc, out)) : KeepsOutput reply out rc := by
  rw [performShellCmdWithRc_run h] at hok
  exact rcOfOutput_keeps hok

end

/-- The cut lies in front of the blank that stands before the newline. -/
theorem performShellCmdWithRc_keeps_blanks : KeepsOutput " a \n7".toList " a ".toList 7 :=
  @performShellCmdWithRc_keeps_output Unit Str (shellServer fun _ => " a \n7".toList) ⟨(), [], []⟩ _ ⟨0⟩
    [] _ _ _ rfl (by decide)

/-! ## Cuts between two characters -/

/-- What stands in front of the last line ends with characters of as many bytes as the white space in front of the
reply, and the first of them is a single byte. -/
def Aligned (reply : Str) : Prop :=
  ∀ a u w b, reply = a ++ (u ++ '\n' :: w) ++ b → Blank a → Blank b → Tight (u ++ '\n' :: w) → '\n' ∉ w →
    ∃ x y, a ++ u = x ++ y ∧ byteLen y = byteLen a ∧ ∀ c, y.head? = some c → c.utf8Size = 1

/-- The value or the error of a run that does not panic. -/
def Returns {ε α : Type} (o : Out ε α) : Prop := (∃ a, o = .ok a) ∨ ∃ e, o = .err e

/-- Where the characters are of the right length both slices are taken. -/
theorem slices_of_aligned {a u w b x y : Str} (hxy : a ++ u = x ++ y) (hy : byteLen y = byteLen a)
    (hhead : ∀ c, y.head? = some c → c.utf8Size = 1) :
    (∃ p, sliceTo (a ++ (u ++ '\n' :: w) ++ b) (byteLen u + 1) = some p) ∧
      sliceFrom (a ++ (u ++ '\n' :: w) ++ b) (byteLen u) = some (y ++ '\n' :: (w ++ b)) := by
  have hx : byteLen u = byteLen x := by
    have := congrArg byteLen hxy
    rw [byteLen_append, byteLen_append] at this
    omega
  have hcut : a ++ (u ++ '\n' :: w) ++ b = x ++ (y ++ '\n' :: (w ++ b)) := by
    rw [← List.append_assoc x, ← hxy]
    simp
  refine ⟨?_, sliceFrom_eq_some.2 ⟨x, hcut, hx.symm⟩⟩
  cases y with
  | nil =>
    refine ⟨x ++ ['\n'], sliceTo_eq_some.2 ⟨w ++ b, by rw [hcut]; simp, ?_⟩⟩
    rw [byteLen_append, hx]
    rfl
  | cons d y =>
    refine ⟨x ++ [d], sliceTo_eq_some.2 ⟨y ++ '\n' :: (w ++ b), by rw [hcut]; simp, ?_⟩⟩
    rw [byteLen_append, hx, byteLen_cons, hhead d rfl]
    rfl

theorem rcOfOutput_returns_iff {reply : Str} : Returns (rcOfOutput reply) ↔ Aligned reply := by
  constructor
  · intro h a u w b hreply ha hb ht hw
    subst hreply
    rw [rcOfOutput_lines ha hb ht hw] at h
    cases hto : sliceTo (a ++ (u ++ '\n' :: w) ++ b) (byteLen u + 1) with
    | none =>
      rw [hto] at h
      rcases h with ⟨_, h⟩ | ⟨_, h⟩
      · simp at h
      · simp at h
    | some p =>
      cases hfrom : sliceFrom (a ++ (u ++ '\n' :: w) ++ b) (byteLen u) with
      | none =>
        rw [hto, hfrom] at h
        rcases h with ⟨_, h⟩ | ⟨_, h⟩
        · simp at h
        · simp at h
      | some rest =>
        obtain ⟨x, y, k, y', hxy, hy, hk, hsize, -, -⟩ := slices_split hto hfrom
        refine ⟨x, y, hxy, hy, fun c hc => ?_⟩
        have hhead := congrArg List.head? hk
        rw [List.head?_append, hc] at hhead
        cases hhead
        exact hsize
  · intro h
    obtain ⟨b, hsplit, ha, hb, ht⟩ := trim_split reply
    generalize List.takeWhile isWhite reply = a at hsplit ha
    generalize trim reply = t at hsplit ht
    by_cases hn : '\n' ∈ t
    · obtain ⟨u, w, rfl, hw⟩ := exists_last hn
      obtain ⟨x, y, hxy, hy, hhead⟩ := h a u w b hsplit ha hb ht hw
      obtain ⟨⟨p, hto⟩, hfrom⟩ := slices_of_aligned (w := w) (b := b) hxy hy hhead
      rw [hsplit, rcOfOutput_lines ha hb ht hw, hto, hfrom, Out.unwrapSlice_some, Out.unwrapSlice_some, Out.ok_bind,
        Out.ok_bind]
      split
      · exact Or.inl ⟨_, rfl⟩
      · exact Or.inr ⟨_, rfl⟩
    · rw [hsplit, rcOfOutput_single ha hb ht hn]
      split
      · exact Or.inl ⟨_, rfl⟩
      · exact Or.inr ⟨_, rfl⟩

/-- Without white space in front the cut is at the newline. -/
theorem aligned_of_head {reply : Str} (h : ∀ c, reply.head? = some c → isWhite c = false) : Aligned reply := by
  intro a u w b hreply ha _ _ _
  cases a with
  | nil => exact ⟨u, [], by simp, rfl, by simp⟩
  | cons c a =>
    have hc := h c (by rw [hreply]; rfl)
    rw [ha c List.mem_cons_self] at hc
    cases hc

theorem byteLen_of_single {s : Str} (h : ∀ c ∈ s, c.utf8Size = 1) : byteLen s = s.length := by
  induction s with
  | nil => rfl
  | cons c s ih =>
    rw [byteLen_cons, h c List.mem_cons_self, ih fun d hd => h d (List.mem_cons_of_mem c hd), List.length_cons]
    omega

/-- A cut of a text of single bytes is between two of them. -/
theorem aligned_of_single {reply : Str} (h : ∀ c ∈ reply, c.utf8Size = 1) : Aligned reply := by
  intro a u w b hreply _ _ _ _
  have hmem : ∀ c ∈ a ++ u, c.utf8Size = 1 := by
    intro c hc
    refine h c ?_
    rw [hreply]
    simp only [List.mem_append, List.mem_cons] at hc ⊢
    tauto
  refine ⟨(a ++ u).take u.length, (a ++ u).drop u.length, (List.take_append_drop _ _).symm, ?_, fun c hc => ?_⟩
  · rw [byteLen_of_single fun c hc => hmem c (List.mem_of_mem_drop hc),
      byteLen_of_single fun c hc => hmem c (List.mem_append_left u hc), List.length_drop, List.length_append]
    omega
  · exact hmem c (List.mem_of_mem_drop (List.mem_of_mem_head? hc))

section
variable {κ σ : Type} {H : Handler Ssh σ} {st st' : St Ssh κ σ}

/-- **A reply is read without a panic exactly when it has one line, or its last line comes behind characters that
are as long as the white space in front of the first.** -/
theorem performShellCmdWithRc_returns_iff {session : SshSession} {cmd reply : Str}
    (h : (performShellCmd session (cmd ++ ShellCmd.rcTail) : Remote κ σ _) H st = (.ok reply, st')) :
    Returns ((performShellCmdWithRc session cmd : Remote κ σ _) H st).1 ↔ Aligned reply := by
  rw [performShellCmdWithRc_run h]
  exact rcOfOutput_returns_iff

end

theorem performShellCmdWithRc_returns_ascii :
    Returns ((performShellCmdWithRc ⟨0⟩ "wc -l".toList : Remote Unit Str _)
      (shellServer fun _ => " 12\n0\n".toList) ⟨(), [], []⟩).1 :=
  (@performShellCmdWithRc_returns_iff _ _ _ _ _ _ _ " 12\n0\n".toList rfl).2 (aligned_of_single fun c hc =>
    beq_iff_eq.1 (List.all_eq_true.1 (by decide : " 12\n0\n".toList.all (fun c => c.utf8Size == 1) = true) c hc))

/-- A blank in front of a letter of two bytes moves the cut into the letter. -/
theorem performShellCmdWithRc_panics :
    ¬ Returns ((performShellCmdWithRc ⟨0⟩ "ls".toList : Remote Unit Str _)
      (shellServer fun _ => " é\n0\n".toList) ⟨(), [], []⟩).1 := by
  have hpanic : ((performShellCmdWithRc ⟨0⟩ "ls".toList : Remote Unit Str _)
      (shellServer fun _ => " é\n0\n".toList) ⟨(), [], []⟩).1 = .panic .strSlice := by decide
  rw [hpanic]
  rintro (⟨_, h⟩ | ⟨_, h⟩)
  · cases h
  · cases h

end RemotefsSsh
