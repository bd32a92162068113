import RemotefsSsh.Asking
import RemotefsSsh.Servers

/-!
# Exit codes (ssh/commons.rs:351-381)

The exit code comes back on the same channel as the output, as a last line that `echo $?` prints.
`StatusLine v reply` says that `perform_shell_cmd_with_rc` takes `v` from `reply`
(`rcOfOutput_ok_iff`): the last line with text on it is the numeral of `v`, and the offset, which is
counted in the trimmed text and used in the untrimmed one, misses that line by white space only.

Two results follow: which outputs survive the round trip (`performShellCmdWithRc_round_trip_iff`),
and which ones have another number taken for the exit code (`Forges`, `exit_code_right_iff`): a numeral
that the output ends in is glued to the exit code, or stands in its place where `echo $?` was not
reached. An output that ends in a newline forges nothing (`not_forges_of_complete`).
-/

namespace RemotefsSsh

open Utf8 UnixPath Effect Prog

/-! ## What is read off a reply -/

theorem head_not_white_append {t s : Str} (hne : t ≠ []) (ht : ∀ c, t.head? = some c → isWhite c = false) :
    ∀ c, (t ++ s).head? = some c → isWhite c = false := by
  intro c hc
  cases t with
  | nil => exact absurd rfl hne
  | cons d t => exact ht c hc

/-- One line with text on it. -/
theorem rcOfOutput_single {a t b : Str} (ha : Blank a) (hb : Blank b) (ht : Tight t) (hn : '\n' ∉ t) :
    rcOfOutput (a ++ t ++ b) = (match parseU32 t with | some v => .ok (v, []) | none => .err rcError) := by
  unfold rcOfOutput
  rewrite [trim_unique ha hb ht, rfind_eq_none.2 hn]
  rfl

/-- Several lines: the offset is that of the last newline in the trimmed text. -/
theorem rcOfOutput_lines {a u w b : Str} (ha : Blank a) (hb : Blank b) (ht : Tight (u ++ '\n' :: w))
    (hn : '\n' ∉ w) :
    rcOfOutput (a ++ (u ++ '\n' :: w) ++ b) = (do
      let out ← Out.unwrapSlice (sliceTo (a ++ (u ++ '\n' :: w) ++ b) (byteLen u + 1))
      let rc ← Out.unwrapSlice (sliceFrom (a ++ (u ++ '\n' :: w) ++ b) (byteLen u))
      match parseU32 (trim rc) with
      | some v => .ok (v, out)
      | none => .err rcError) := by
  unfold rcOfOutput
  rewrite [trim_unique ha hb ht, rfind_append_cons hn]
  rfl

inductive StatusLine (v : UInt32) : Str → Prop
  /-- The only line with text on it. -/
  | only {a w b : Str} : Blank a → Blank b → parseU32 w = some v → StatusLine v (a ++ w ++ b)
  /-- The last of several, behind as many bytes of white space `y` as the reply starts with. -/
  | last {a u x y w b : Str} : Blank a → Blank b → u ≠ [] → (∀ c, u.head? = some c → isWhite c = false) →
      a ++ u = x ++ y → Blank y → byteLen y = byteLen a → (∀ c, y.head? = some c → c.utf8Size = 1) →
      '\n' ∉ w → parseU32 (trim w) = some v → StatusLine v (a ++ (u ++ '\n' :: w) ++ b)

theorem not_white_of_parseU32 {w : Str} {v : UInt32} (h : parseU32 w = some v) : ∀ c ∈ w, isWhite c = false :=
  not_white_of_parseUnsigned (parseU32_eq_some.1 h)

theorem ne_nil_of_parseU32 {w : Str} {v : UInt32} (h : parseU32 w = some v) : w ≠ [] :=
  parseUnsigned_ne_nil (parseU32_eq_some.1 h)

theorem tight_of_parseU32 {w : Str} {v : UInt32} (h : parseU32 w = some v) : Tight w :=
  ⟨fun c hc => not_white_of_parseU32 h c (List.mem_of_mem_head? hc),
   fun c hc => not_white_of_parseU32 h c (List.mem_of_getLast? hc)⟩

theorem newline_of_parseU32 {w : Str} {v : UInt32} (h : parseU32 w = some v) : '\n' ∉ w := fun hm => by
  have := not_white_of_parseU32 h _ hm
  rw [isWhite_newline] at this
  cases this

/-- A shorter start of a text is the start of a longer one. -/
theorem split_of_byteLen_le {a b c d : Str} (h : a ++ b = c ++ d) (hle : byteLen a ≤ byteLen c) :
    ∃ e, c = a ++ e ∧ b = e ++ d := by
  rcases List.append_eq_append_iff.1 h with ⟨e, rfl, rfl⟩ | ⟨e, rfl, rfl⟩
  · exact ⟨e, rfl, rfl⟩
  · rw [byteLen_append] at hle
    have he : e = [] := byteLen_eq_zero.1 (by omega)
    subst he
    exact ⟨[], by simp, by simp⟩

/-- Both slices are taken: the text up to the last line ends with as many bytes as the reply starts with in
white space, and the first character of these is a single byte. -/
theorem slices_split {a u w b p rest : Str} (hto : sliceTo (a ++ (u ++ '\n' :: w) ++ b) (byteLen u + 1) = some p)
    (hfrom : sliceFrom (a ++ (u ++ '\n' :: w) ++ b) (byteLen u) = some rest) :
    ∃ x y k y', a ++ u = x ++ y ∧ byteLen y = byteLen a ∧ y ++ ['\n'] = k :: y' ∧ k.utf8Size = 1 ∧ p = x ++ [k] ∧
      rest = y ++ '\n' :: (w ++ b) := by
  obtain ⟨q, hq, hp⟩ := sliceTo_eq_some.1 hto
  obtain ⟨x, hx, hxlen⟩ := sliceFrom_eq_some.1 hfrom
  have hassoc : a ++ (u ++ '\n' :: w) ++ b = (a ++ u) ++ '\n' :: (w ++ b) := by simp
  obtain ⟨y, hy, rfl⟩ := split_of_byteLen_le (hx.symm.trans hassoc) (by rw [byteLen_append]; omega)
  have hylen : byteLen y = byteLen a := by
    have := congrArg byteLen hy
    rw [byteLen_append, byteLen_append] at this
    omega
  -- one byte lies between the two offsets, and it is a character
  obtain ⟨e, rfl, he⟩ := split_of_byteLen_le (hx.symm.trans hq) (by omega)
  have he1 : byteLen e = 1 := by rw [byteLen_append] at hp; omega
  cases e with
  | nil => cases he1
  | cons k e =>
    have hk := Char.utf8Size_pos k
    rw [byteLen_cons] at he1
    obtain rfl : e = [] := byteLen_eq_zero.1 (by omega)
    have hsize : k.utf8Size = 1 := by rw [byteLen_nil] at he1; omega
    cases y with
    | nil =>
      cases he
      exact ⟨x, [], '\n', [], hy, hylen, rfl, hsize, rfl, rfl⟩
    | cons d y =>
      have hdk : d = k := (List.cons.inj he).1
      subst hdk
      exact ⟨x, d :: y, d, y ++ ['\n'], hy, hylen, rfl, hsize, rfl, rfl⟩

/-- A numeral behind a newline has only white space before that newline. -/
theorem blank_of_trim {y w : Str} (hw : ¬ Blank w) (hn : '\n' ∉ trim (y ++ '\n' :: w)) : Blank y := by
  obtain ⟨b, hsplit, ha, hb, _⟩ := trim_split (y ++ '\n' :: w)
  generalize List.takeWhile isWhite (y ++ '\n' :: w) = a at hsplit ha
  generalize trim (y ++ '\n' :: w) = m at hsplit hn
  rw [List.append_assoc] at hsplit
  rcases List.append_eq_append_iff.1 hsplit with ⟨e, rfl, _⟩ | ⟨e, rfl, he⟩
  · exact (blank_append.1 ha).1
  · -- the newline would lie in the numeral or after it
    rcases List.append_eq_append_iff.1 he with ⟨k, rfl, hk⟩ | ⟨k, rfl, hk⟩
    · exfalso
      refine hw fun c hc => hb c ?_
      rw [hk]; simp [hc]
    · cases k with
      | nil =>
        exfalso
        refine hw fun c hc => hb c ?_
        rw [List.nil_append] at hk
        rw [← hk]; simp [hc]
      | cons x k =>
        rw [List.cons_append, List.cons.injEq] at hk
        rw [← hk.1] at hn
        exact absurd (by simp) hn

theorem newline_blank : Blank ['\n'] := by simp [Blank, isWhite_newline]

/-- White space around a line is trimmed away. -/
theorem trim_line {y w b : Str} (hy : Blank y) (hb : Blank b) : trim (y ++ '\n' :: (w ++ b)) = trim w := by
  have hblank : Blank (y ++ ['\n']) := blank_append.2 ⟨hy, newline_blank⟩
  rw [← trim_append_blank (s := w) hb, ← trim_blank_append (s := w ++ b) hblank]
  simp

/-- What stands at both ends of a tight text is not the newline in it. -/
theorem tight_newline {u w : Str} (ht : Tight (u ++ '\n' :: w)) :
    u ≠ [] ∧ ∃ c ∈ w, isWhite c = false := by
  constructor
  · rintro rfl
    have := ht.1 '\n' rfl
    rw [isWhite_newline] at this
    cases this
  · cases w with
    | nil =>
      have := ht.2 '\n' (by simp)
      rw [isWhite_newline] at this
      cases this
    | cons d w =>
      refine ⟨(d :: w).getLast (List.cons_ne_nil d w), List.getLast_mem _, ht.2 _ ?_⟩
      rw [List.getLast?_append_of_ne_nil _ (List.cons_ne_nil _ _), List.getLast?_cons_cons,
        List.getLast?_eq_getLast_of_ne_nil]

/-- Text, a newline, and a line that does not end with white space. -/
theorem tight_last_line {u w : Str} (hune : u ≠ []) (hu : ∀ c, u.head? = some c → isWhite c = false)
    (hlast : ∀ c, w.getLast? = some c → isWhite c = false) (hwne : w ≠ []) : Tight (u ++ '\n' :: w) := by
  refine ⟨head_not_white_append hune hu, fun c hc => hlast c ?_⟩
  rw [List.getLast?_append_of_ne_nil _ (List.cons_ne_nil _ _)] at hc
  cases w with
  | nil => exact absurd rfl hwne
  | cons d e => rw [List.getLast?_cons_cons] at hc; exact hc

/-- What an exit code on the last of several lines tells: the cut `x` misses that line by `y`, white space of
as many bytes as the reply starts with, and the first character behind it is a single byte. -/
theorem rcOfOutput_lines_ok {a u w b : Str} (ha : Blank a) (hb : Blank b) (ht : Tight (u ++ '\n' :: w))
    (hw : '\n' ∉ w) {out : Str} {v : UInt32} (h : rcOfOutput (a ++ (u ++ '\n' :: w) ++ b) = .ok (v, out)) :
    ∃ x y k y', a ++ u = x ++ y ∧ Blank y ∧ byteLen y = byteLen a ∧ y ++ ['\n'] = k :: y' ∧ k.utf8Size = 1 ∧
      out = x ++ [k] ∧ parseU32 (trim w) = some v := by
  rw [rcOfOutput_lines ha hb ht hw] at h
  cases hto : sliceTo (a ++ (u ++ '\n' :: w) ++ b) (byteLen u + 1) with
  | none => rw [hto] at h; simp at h
  | some p =>
    cases hfrom : sliceFrom (a ++ (u ++ '\n' :: w) ++ b) (byteLen u) with
    | none => rw [hto, hfrom] at h; simp at h
    | some rest =>
      rw [hto, hfrom, Out.unwrapSlice_some, Out.unwrapSlice_some, Out.ok_bind, Out.ok_bind] at h
      obtain ⟨x, y, k, y', hxy, hy, hk, hsize, rfl, rfl⟩ := slices_split hto hfrom
      obtain ⟨-, c, hc, hcw⟩ := tight_newline ht
      split at h <;> rename_i hparse
      · cases h
        have hwb : ¬ Blank (w ++ b) := fun hbl => by
          rw [hbl c (List.mem_append_left b hc)] at hcw
          cases hcw
        have hyb : Blank y := blank_of_trim hwb (newline_of_parseU32 hparse)
        refine ⟨x, y, k, y', hxy, hyb, hy, hk, hsize, rfl, ?_⟩
        rw [← trim_line hyb hb]
        exact hparse
      · cases h

theorem statusLine_of_lines {a u w b : Str} (ha : Blank a) (hb : Blank b) (ht : Tight (u ++ '\n' :: w))
    (hw : '\n' ∉ w) {out : Str} {v : UInt32} (h : rcOfOutput (a ++ (u ++ '\n' :: w) ++ b) = .ok (v, out)) :
    StatusLine v (a ++ (u ++ '\n' :: w) ++ b) := by
  obtain ⟨x, y, k, y', hxy, hyb, hylen, hk, hsize, -, hparse⟩ := rcOfOutput_lines_ok ha hb ht hw h
  refine .last ha hb (tight_newline ht).1 (fun c hc => ht.1 c ?_) hxy hyb hylen (fun d hd => ?_) hw hparse
  · rw [List.head?_append, hc]
    rfl
  · have hhead := congrArg List.head? hk
    rw [List.head?_append, hd] at hhead
    cases hhead
    exact hsize

theorem rcOfOutput_of_statusLine {reply : Str} {v : UInt32} (h : StatusLine v reply) :
    ∃ out, rcOfOutput reply = .ok (v, out) := by
  cases h with
  | only ha hb hparse =>
    refine ⟨[], ?_⟩
    rw [rcOfOutput_single ha hb (tight_of_parseU32 hparse) (newline_of_parseU32 hparse), hparse]
  | @last a u x y w b ha hb hune hu hxy hy hylen hy1 hw hparse =>
    obtain ⟨b', hsplit, hb', hlast⟩ := trimEnd_split w
    have hwne : trimEnd w ≠ [] := by
      intro he
      rw [hsplit, trim_append_blank hb', he] at hparse
      exact ne_nil_of_parseU32 hparse rfl
    have ht := tight_last_line hune hu hlast hwne
    have hn : '\n' ∉ trimEnd w := fun hm => hw (by rw [hsplit]; exact List.mem_append_left b' hm)
    have he : a ++ (u ++ '\n' :: w) ++ b = a ++ (u ++ '\n' :: trimEnd w) ++ (b' ++ b) := by
      conv => lhs; rw [hsplit]
      simp
    have hx : byteLen u = byteLen x := by
      have := congrArg byteLen hxy
      rw [byteLen_append, byteLen_append] at this
      omega
    have hcut : a ++ (u ++ '\n' :: w) ++ b = x ++ (y ++ '\n' :: (w ++ b)) := by
      rw [← List.append_assoc x, ← hxy]; simp
    have hfrom : sliceFrom (a ++ (u ++ '\n' :: w) ++ b) (byteLen u) = some (y ++ '\n' :: (w ++ b)) :=
      sliceFrom_eq_some.2 ⟨x, hcut, hx.symm⟩
    obtain ⟨p, hto⟩ : ∃ p, sliceTo (a ++ (u ++ '\n' :: w) ++ b) (byteLen u + 1) = some p := by
      cases y with
      | nil => exact ⟨x ++ ['\n'], sliceTo_eq_some.2 ⟨w ++ b, by rw [hcut]; simp, by rw [byteLen_append, hx]; rfl⟩⟩
      | cons d y =>
        refine ⟨x ++ [d], sliceTo_eq_some.2 ⟨y ++ '\n' :: (w ++ b), by rw [hcut]; simp, ?_⟩⟩
        rw [byteLen_append, hx, byteLen_cons, hy1 d rfl]
        rfl
    refine ⟨p, ?_⟩
    rw [he, rcOfOutput_lines ha (blank_append.2 ⟨hb', hb⟩) ht hn, ← he, hto, hfrom, Out.unwrapSlice_some,
      Out.unwrapSlice_some, Out.ok_bind, Out.ok_bind, trim_line hy hb, hparse]

theorem rcOfOutput_ok_iff {reply : Str} {v : UInt32} :
    (∃ out, rcOfOutput reply = .ok (v, out)) ↔ StatusLine v reply := by
  constructor
  · rintro ⟨out, h⟩
    obtain ⟨b, hsplit, ha, hb, ht⟩ := trim_split reply
    generalize List.takeWhile isWhite reply = a at hsplit ha
    generalize trim reply = t at hsplit ht
    subst hsplit
    by_cases hn : '\n' ∈ t
    · obtain ⟨u, w, rfl, hw⟩ := exists_last hn
      exact statusLine_of_lines ha hb ht hw h
    · rw [rcOfOutput_single ha hb ht hn] at h
      split at h <;> rename_i hparse
      · cases h; exact .only ha hb hparse
      · cases h
  · exact rcOfOutput_of_statusLine

/-! ## The round trip -/

/-- What comes back for `cmd; echo $?` when the command prints `out` and ends with `n`. -/
def framed (out : Str) (n : UInt32) : Str := out ++ (decimal n.toNat ++ ['\n'])

theorem tight_append_decimal {t : Str} (ht : ∀ c, t.head? = some c → isWhite c = false) (n : Nat) :
    Tight (t ++ decimal n) := by
  refine ⟨fun c hc => ?_, fun c hc => ?_⟩
  · cases t with
    | nil => exact (decimal_tight n).1 c hc
    | cons d t => exact ht c hc
  · rw [List.getLast?_append_of_ne_nil _ (decimal_ne_nil n)] at hc
    exact (decimal_tight n).2 c hc

theorem trim_decimal (n : Nat) : trim ('\n' :: (decimal n ++ ['\n'])) = decimal n := by
  have h := trim_line (y := []) (w := decimal n) blank_nil newline_blank
  rw [List.nil_append, trim_tight (decimal_tight n)] at h
  exact h

/-- A reply whose output has text on its lines: without leading white space it comes back whole,
with some it is cut short. -/
theorem rcOfOutput_framed {a t : Str} (ha : Blank a) (hne : t ≠ []) (ht : ∀ c, t.head? = some c → isWhite c = false)
    (n : UInt32) : rcOfOutput (framed (a ++ (t ++ ['\n'])) n) = .ok (n, a ++ (t ++ ['\n'])) ↔ a = [] := by
  have htight : Tight (t ++ '\n' :: decimal n.toNat) := by
    have h := tight_append_decimal (t := t ++ ['\n']) (head_not_white_append hne ht) n.toNat
    simpa using h
  have he : framed (a ++ (t ++ ['\n'])) n = a ++ (t ++ '\n' :: decimal n.toNat) ++ ['\n'] := by simp [framed]
  rw [he, rcOfOutput_lines ha newline_blank htight (newline_not_mem_decimal n.toNat), ← he]
  constructor
  · intro h
    cases hto : sliceTo (framed (a ++ (t ++ ['\n'])) n) (byteLen t + 1) with
    | none => rw [hto] at h; simp at h
    | some p =>
      obtain ⟨_, _, hp⟩ := sliceTo_eq_some.1 hto
      rw [hto, Out.unwrapSlice_some, Out.ok_bind] at h
      cases hfrom : sliceFrom (framed (a ++ (t ++ ['\n'])) n) (byteLen t) with
      | none => rw [hfrom] at h; simp at h
      | some rest =>
        rw [hfrom, Out.unwrapSlice_some, Out.ok_bind] at h
        have hpe : p = a ++ (t ++ ['\n']) := by
          split at h
          · cases h; rfl
          · cases h
        rw [hpe, byteLen_append, byteLen_append] at hp
        have hnl : byteLen ['\n'] = 1 := rfl
        exact byteLen_eq_zero.1 (by omega)
  · rintro rfl
    have hto : sliceTo (framed ([] ++ (t ++ ['\n'])) n) (byteLen t + 1) = some (t ++ ['\n']) :=
      sliceTo_eq_some.2 ⟨_, by rw [framed, List.nil_append], by rw [byteLen_append]; rfl⟩
    have hfrom : sliceFrom (framed ([] ++ (t ++ ['\n'])) n) (byteLen t) = some ('\n' :: (decimal n.toNat ++ ['\n'])) :=
      sliceFrom_eq_some.2 ⟨t, by simp [framed], rfl⟩
    rw [hto, hfrom, Out.unwrapSlice_some, Out.unwrapSlice_some, Out.ok_bind, Out.ok_bind, trim_decimal,
      parseU32_decimal, List.nil_append]

/-- Blank output comes back empty. -/
theorem rcOfOutput_framed_blank {a : Str} (ha : Blank a) (n : UInt32) : rcOfOutput (framed a n) = .ok (n, []) := by
  have h := rcOfOutput_single ha newline_blank (decimal_tight n.toNat) (newline_not_mem_decimal n.toNat)
  rw [parseU32_decimal, List.append_assoc] at h
  exact h

theorem rcOfOutput_round_trip_iff {out : Str} (hout : out = [] ∨ out.getLast? = some '\n') (n : UInt32) :
    rcOfOutput (framed out n) = .ok (n, out) ↔ ∀ c, out.head? = some c → isWhite c = false := by
  obtain ⟨hsplit, ha, ht⟩ := trimStart_split out
  rw [← takeWhile_white_eq_nil]
  generalize out.takeWhile isWhite = a at hsplit ha
  generalize trimStart out = r at hsplit ht
  subst hsplit
  rcases List.eq_nil_or_concat' r with rfl | ⟨t, x, rfl⟩
  · rw [List.append_nil, rcOfOutput_framed_blank ha]
    simp [eq_comm]
  · have hx : x = '\n' := by simpa using hout
    subst hx
    have hne : t ≠ [] := by
      rintro rfl
      have := ht '\n' rfl
      rw [isWhite_newline] at this
      cases this
    refine rcOfOutput_framed ha hne (fun c hc => ht c ?_) n
    rw [List.head?_append, hc]
    rfl

section
variable {κ σ : Type} {H : Handler Ssh σ} {st st' : St Ssh κ σ}

theorem performShellCmdWithRc_run {session : SshSession} {cmd reply : Str}
    (h : (performShellCmd session (cmd ++ ShellCmd.rcTail) : Remote κ σ _) H st = (.ok reply, st')) :
    (performShellCmdWithRc session cmd : Remote κ σ _) H st = (rcOfOutput reply, st') := by
  rw [performShellCmdWithRc, bind_ok h, ofOut_run]

/-- **The exit code and the output come back as they were exactly when the output does not start with
white space.** -/
theorem performShellCmdWithRc_round_trip_iff {session : SshSession} {cmd out : Str} {n : UInt32}
    (hout : out = [] ∨ out.getLast? = some '\n')
    (h : (performShellCmd session (cmd ++ ShellCmd.rcTail) : Remote κ σ _) H st = (.ok (framed out n), st')) :
    ((performShellCmdWithRc session cmd : Remote κ σ _) H st).1 = .ok (n, out) ↔
      ∀ c, out.head? = some c → isWhite c = false := by
  rw [performShellCmdWithRc_run h]
  exact rcOfOutput_round_trip_iff hout n

end

theorem performShellCmdWithRc_round_trip_pwd :
    ((performShellCmdWithRc ⟨0⟩ "pwd".toList : Remote Unit Str _)
      (shellServer fun _ => framed "/tmp\n".toList 0) ⟨(), [], []⟩).1 = .ok (0, "/tmp\n".toList) :=
  (performShellCmdWithRc_round_trip_iff (Or.inr (by decide)) rfl).2 (by intro c hc; cases hc; decide)

/-- A leading blank makes the command fail. -/
theorem performShellCmdWithRc_leading_blank :
    ((performShellCmdWithRc ⟨0⟩ "wc -l".toList : Remote Unit Str _)
      (shellServer fun _ => framed " 12\n".toList 0) ⟨(), [], []⟩).1 = .err rcError := by
  decide

/-! ## Wrong exit codes -/

/-- What comes back for `cmd; echo $?`, where the `echo` may not be reached. -/
def replyOf (stdout : Str) (n : UInt32) (reached : Bool) : Str := if reached then framed stdout n else stdout

/-- Whatever exit code is reported is `n`. -/
def Reports (n : UInt32) (o : Out RemoteError (UInt32 × Str)) : Prop := ∀ v out, o = .ok (v, out) → v = n

/-- The cut that is counted from the start of the text finds the last newline in `s`, or misses it by white space: as
many bytes as stand in front of the text in white space stand in front of that newline, too. -/
def CutHits (s : Str) : Prop :=
  ∀ u w, trimStart s = u ++ '\n' :: w → '\n' ∉ w → ∃ x y, s.takeWhile isWhite ++ u = x ++ y ∧ Blank y ∧
    byteLen y = byteLen (s.takeWhile isWhite) ∧ ∀ c, y.head? = some c → c.utf8Size = 1

/-- What the exit code is read from. -/
theorem statusLine_iff {v : UInt32} {reply : Str} :
    StatusLine v reply ↔ parseU32 (trimStart (lastLine (trimEnd reply))) = some v ∧ CutHits (trimEnd reply) := by
  constructor
  · intro h
    cases h with
    | @only a w b ha hb hparse =>
      have hw := tight_of_parseU32 hparse
      have hwne := ne_nil_of_parseU32 hparse
      have hend : trimEnd (a ++ w ++ b) = a ++ w := trimEnd_append hb fun c hc => hw.2 c (by
        rwa [List.getLast?_append_of_ne_nil _ hwne] at hc)
      have hline : trimStart (lastLine (a ++ w)) = w := by
        rw [lastLine_append (newline_of_parseU32 hparse)]
        exact trimStart_append (blank_lastLine ha) hw.1
      rw [hend, hline]
      refine ⟨hparse, fun u w' hsplit _ => ?_⟩
      rw [(trimStart_tight ha hw.1).2] at hsplit
      exact absurd (hsplit ▸ List.mem_append_right u List.mem_cons_self) (newline_of_parseU32 hparse)
    | @last a u x y w b ha hb hune hu hxy hy hlen hfirst hw hparse =>
      obtain ⟨b', hsplit, hb', hlast⟩ := trimEnd_split w
      have htw : trim w = trim (trimEnd w) := by conv => lhs; rw [hsplit, trim_append_blank hb']
      have hwne : trimEnd w ≠ [] := fun he => by
        rw [htw, he] at hparse
        exact ne_nil_of_parseU32 hparse rfl
      have hnw : '\n' ∉ trimEnd w := fun hm => hw (by rw [hsplit]; exact List.mem_append_left b' hm)
      have htight := tight_last_line hune hu hlast hwne
      have hend : trimEnd (a ++ (u ++ '\n' :: w) ++ b) = a ++ (u ++ '\n' :: trimEnd w) := by
        have he : a ++ (u ++ '\n' :: w) ++ b = a ++ (u ++ '\n' :: trimEnd w) ++ (b' ++ b) := by
          conv => lhs; rw [hsplit]
          simp
        rw [he]
        refine trimEnd_append (blank_append.2 ⟨hb', hb⟩) fun c hc => htight.2 c ?_
        rwa [List.getLast?_append_of_ne_nil _ (by simp)] at hc
      obtain ⟨htake, hstart⟩ := trimStart_tight ha htight.1
      rw [hend, ← List.append_assoc, lastLine_append_cons hnw]
      refine ⟨?_, fun u' w' hsplit' hw' => ?_⟩
      · rw [← trim_eq]
        exact hparse
      · rw [List.append_assoc, hstart] at hsplit'
        rw [List.append_assoc, htake]
        obtain rfl : u' = u := (last_cut_unique hsplit'.symm hw' hnw).1
        exact ⟨x, y, hxy, hy, hlen, hfirst⟩
  · rintro ⟨hparse, hcut⟩
    obtain ⟨b, hsplit, hb, hlast⟩ := trimEnd_split reply
    generalize trimEnd reply = s at *
    subst hsplit
    obtain ⟨hs, ha, ht⟩ := trimStart_split s
    by_cases hn : '\n' ∈ trimStart s
    · obtain ⟨u, w, huw, hw⟩ := exists_last hn
      obtain ⟨x, y, hxy, hy, hlen, hfirst⟩ := hcut u w huw hw
      have hline : lastLine s = w := by rw [hs, huw, ← List.append_assoc, lastLine_append_cons hw]
      have hwend : trimEnd w = w := by
        have h := trimEnd_append (t := w) blank_nil fun c hc => hlast c (by
          rw [hs, huw, ← List.append_assoc, List.getLast?_append_cons, List.getLast?_cons, hc]
          rfl)
        rwa [List.append_nil] at h
      rw [huw] at ht hs
      rw [hs]
      refine .last ha hb ?_ (fun c hc => ht c ?_) hxy hy hlen hfirst hw ?_
      · rintro rfl
        have := ht '\n' rfl
        rw [isWhite_newline] at this
        cases this
      · rw [List.head?_append, hc]
        rfl
      · rw [trim_eq, hwend, ← hline]
        exact hparse
    · rw [hs, lastLine_append hn, trimStart_append (blank_lastLine ha) ht] at hparse
      rw [hs]
      exact .only ha hb hparse

/-- A number that is not the exit code stands where the exit code is looked for, behind white space. Where `echo $?` was
reached, that is in the last line of the output, and the exit code is glued to it. -/
inductive Forges (n : UInt32) : Str → Bool → Prop
  | glued {stdout : Str} {k : Nat} : parseUnsigned (trimStart (lastLine stdout)) = some k → k ≠ 0 →
      k * 10 ^ (decimal n.toNat).length + n.toNat < UInt32.size → CutHits stdout → Forges n stdout true
  | bare {stdout : Str} {v : UInt32} : parseU32 (trimStart (lastLine (trimEnd stdout))) = some v → v ≠ n →
      CutHits (trimEnd stdout) → Forges n stdout false

theorem trimEnd_framed (out : Str) (n : UInt32) : trimEnd (framed out n) = out ++ decimal n.toNat := by
  have h := trimEnd_append (t := out ++ decimal n.toNat) newline_blank fun c hc => (decimal_tight n.toNat).2 c (by
    rwa [List.getLast?_append_of_ne_nil _ (decimal_ne_nil _)] at hc)
  rwa [List.append_assoc] at h

/-- The status does not move the last newline. -/
theorem cutHits_append {out d : Str} (hout : ¬ Blank (lastLine out)) (hd : '\n' ∉ d) :
    CutHits (out ++ d) ↔ CutHits out := by
  obtain ⟨hs, ha, ht⟩ := trimStart_split out
  have hne : trimStart out ≠ [] := fun he => hout (blank_lastLine (by rw [hs, he, List.append_nil]; exact ha))
  obtain ⟨htake, hstart⟩ := trimStart_tight (t := trimStart out ++ d) ha (head_not_white_append hne ht)
  rw [← List.append_assoc, ← hs] at htake hstart
  unfold CutHits
  rw [htake, hstart]
  constructor
  · intro h u w huw hw
    refine h u (w ++ d) ?_ ?_
    · rw [huw, List.append_assoc, List.cons_append]
    · rw [List.mem_append, not_or]
      exact ⟨hw, hd⟩
  · intro h u w huw hw
    by_cases hn : '\n' ∈ trimStart out
    · obtain ⟨u', w', huw', hw'⟩ := exists_last hn
      rw [huw', List.append_assoc, List.cons_append] at huw
      have hwd : '\n' ∉ w' ++ d := by
        rw [List.mem_append, not_or]
        exact ⟨hw', hd⟩
      obtain ⟨rfl, -⟩ := last_cut_unique huw hwd hw
      exact h u' w' huw' hw'
    · have hmem : '\n' ∈ trimStart out ++ d := huw ▸ List.mem_append_right u List.mem_cons_self
      rcases List.mem_append.1 hmem with hmem | hmem
      · exact absurd hmem hn
      · exact absurd hmem hd

theorem forges_glued_iff {stdout : Str} {n : UInt32} :
    Forges n stdout true ↔ ∃ v, StatusLine v (framed stdout n) ∧ v ≠ n := by
  have hline : lastLine (stdout ++ decimal n.toNat) = lastLine stdout ++ decimal n.toNat :=
    lastLine_append (newline_not_mem_decimal _)
  simp only [statusLine_iff, trimEnd_framed, hline]
  by_cases hblank : Blank (lastLine stdout)
  · -- nothing but the exit code on its line
    have hnil := trimStart_eq_nil hblank
    constructor
    · rintro ⟨hk, -, -, -⟩
      rw [hnil] at hk
      exact absurd rfl (parseUnsigned_ne_nil hk)
    · rintro ⟨v, ⟨hv, -⟩, hne⟩
      rw [trimStart_append hblank (decimal_tight _).1, parseU32_decimal] at hv
      exact absurd (Option.some.inj hv).symm hne
  · obtain ⟨hs, ha, ht⟩ := trimStart_split (lastLine stdout)
    have hne : trimStart (lastLine stdout) ≠ [] := fun he => hblank (by rw [hs, he, List.append_nil]; exact ha)
    have htrim : trimStart (lastLine stdout ++ decimal n.toNat) = trimStart (lastLine stdout) ++ decimal n.toNat := by
      conv => lhs; rw [hs, List.append_assoc]
      exact trimStart_append ha (head_not_white_append hne ht)
    simp only [htrim, cutHits_append hblank (newline_not_mem_decimal _), parseU32_eq_some,
      parseUnsigned_append_decimal hne]
    constructor
    · rintro ⟨hk, hzero, hlt, hcut⟩
      refine ⟨UInt32.ofNatLT _ hlt, ⟨Or.inr ⟨_, hk, UInt32.toNat_ofNatLT⟩, hcut⟩, fun h => ?_⟩
      have hval := congrArg UInt32.toNat h
      rw [UInt32.toNat_ofNatLT] at hval
      have hpos : 0 < 10 ^ (decimal n.toNat).length := Nat.pos_of_ne_zero (by simp)
      have := Nat.mul_pos (Nat.pos_of_ne_zero hzero) hpos
      omega
    · rintro ⟨v, ⟨⟨-, hv⟩ | ⟨k, hk, hv⟩, hcut⟩, hne⟩
      · exact absurd (UInt32.toNat_inj.1 hv) hne
      · refine .glued hk ?_ (hv ▸ v.toNat_lt) hcut
        rintro rfl
        rw [Nat.zero_mul, Nat.zero_add] at hv
        exact hne (UInt32.toNat_inj.1 hv)

theorem forges_iff {stdout : Str} {n : UInt32} {reached : Bool} :
    Forges n stdout reached ↔ ∃ v, StatusLine v (replyOf stdout n reached) ∧ v ≠ n := by
  cases reached with
  | true => exact forges_glued_iff
  | false =>
    show _ ↔ ∃ v, StatusLine v stdout ∧ v ≠ n
    simp only [statusLine_iff]
    constructor
    · rintro (_ | ⟨hv, hne, hcut⟩)
      exact ⟨_, ⟨hv, hcut⟩, hne⟩
    · rintro ⟨v, ⟨hv, hcut⟩, hne⟩
      exact .bare hv hne hcut

theorem not_forges_of_complete {stdout : Str} (h : stdout = [] ∨ stdout.getLast? = some '\n') (n : UInt32) :
    ¬ Forges n stdout true := by
  have hline : lastLine stdout = [] := by
    rcases h with rfl | h
    · rfl
    · obtain ⟨t, rfl⟩ := List.getLast?_eq_some_iff.1 h
      exact lastLine_append_cons (by simp)
  rintro ⟨hk, -, -, -⟩
  rw [hline] at hk
  exact absurd rfl (parseUnsigned_ne_nil hk)

theorem reports_rcOfOutput_iff {n : UInt32} {reply : Str} :
    Reports n (rcOfOutput reply) ↔ ∀ v, StatusLine v reply → v = n := by
  constructor
  · intro h v hv
    obtain ⟨out, hout⟩ := rcOfOutput_ok_iff.2 hv
    exact h v out hout
  · intro h v out hout
    exact h v (rcOfOutput_ok_iff.1 ⟨out, hout⟩)

theorem reports_iff {stdout : Str} {n : UInt32} {reached : Bool} :
    Reports n (rcOfOutput (replyOf stdout n reached)) ↔ ¬ Forges n stdout reached := by
  rw [reports_rcOfOutput_iff, forges_iff]
  simp only [not_exists, not_and, not_not]

theorem exec_scp_run {σ : Type} {H : Handler Ssh σ} {st st₁ st₂ : St Ssh ScpFs σ} {session : SshSession}
    {cmd reply : Str} (hc : (ScpFs.checkConnection : Remote ScpFs σ _) H st = (.ok (), st₁))
    (hs : st₁.self.session = some session)
    (h : (performShellCmd session (ShellCmd.execAt st₁.self.wrkdir cmd).line : Remote ScpFs σ _) H st₁ =
      (.ok reply, st₂)) :
    (ScpFs.exec cmd : Remote ScpFs σ _) H st = (rcOfOutput reply, st₂) := by
  rw [ScpFs.exec, bind_ok hc, bind_ok self_run, hs, bind_ok (unwrap_run session), bind_ok self_run]
  exact performShellCmdWithRc_run h

theorem exec_sftp_run {σ : Type} {H : Handler Ssh σ} {st st₁ st₂ : St Ssh SftpFs σ} {session : SshSession}
    {cmd reply : Str} (hc : (SftpFs.checkConnection : Remote SftpFs σ _) H st = (.ok (), st₁))
    (hs : st₁.self.session = some session)
    (h : (performShellCmd session (ShellCmd.execAt st₁.self.wrkdir cmd).line : Remote SftpFs σ _) H st₁ =
      (.ok reply, st₂)) :
    (SftpFs.exec cmd : Remote SftpFs σ _) H st = (rcOfOutput reply, st₂) := by
  rw [SftpFs.exec, bind_ok hc, bind_ok self_run, hs, bind_ok (unwrap_run session), bind_ok self_run]
  exact performShellCmdWithRc_run h

/-- **No wrong exit code is reported exactly when no other number stands in the output where the exit code is looked
for**, by `perform_shell_cmd_with_rc` and by `exec` of both clients. -/
theorem exit_code_right_iff (stdout : Str) (n : UInt32) (reached : Bool) :
    (∀ (κ σ : Type) (H : Handler Ssh σ) (st st' : St Ssh κ σ) (session : SshSession) (cmd : Str),
      (performShellCmd session (cmd ++ ShellCmd.rcTail) : Remote κ σ _) H st = (.ok (replyOf stdout n reached), st') →
      (Reports n ((performShellCmdWithRc session cmd : Remote κ σ _) H st).1 ↔ ¬ Forges n stdout reached)) ∧
    (∀ (σ : Type) (H : Handler Ssh σ) (st st₁ st₂ : St Ssh ScpFs σ) (session : SshSession) (cmd : Str),
      (ScpFs.checkConnection : Remote ScpFs σ _) H st = (.ok (), st₁) → st₁.self.session = some session →
      (performShellCmd session (ShellCmd.execAt st₁.self.wrkdir cmd).line : Remote ScpFs σ _) H st₁ =
        (.ok (replyOf stdout n reached), st₂) →
      (Reports n ((ScpFs.exec cmd : Remote ScpFs σ _) H st).1 ↔ ¬ Forges n stdout reached)) ∧
    (∀ (σ : Type) (H : Handler Ssh σ) (st st₁ st₂ : St Ssh SftpFs σ) (session : SshSession) (cmd : Str),
      (SftpFs.checkConnection : Remote SftpFs σ _) H st = (.ok (), st₁) → st₁.self.session = some session →
      (performShellCmd session (ShellCmd.execAt st₁.self.wrkdir cmd).line : Remote SftpFs σ _) H st₁ =
        (.ok (replyOf stdout n reached), st₂) →
      (Reports n ((SftpFs.exec cmd : Remote SftpFs σ _) H st).1 ↔ ¬ Forges n stdout reached)) := by
  refine ⟨?_, ?_, ?_⟩
  · intro κ σ H st st' session cmd h
    rw [performShellCmdWithRc_run h]
    exact reports_iff
  · intro σ H st st₁ st₂ session cmd hc hs h
    rw [exec_scp_run hc hs h]
    exact reports_iff
  · intro σ H st st₁ st₂ session cmd hc hs h
    rw [exec_sftp_run hc hs h]
    exact reports_iff

theorem exit_code_right_pwd :
    Reports 0 ((performShellCmdWithRc ⟨0⟩ "pwd".toList : Remote Unit Str _)
      (shellServer fun _ => replyOf "/tmp\n".toList 0 true) ⟨(), [], []⟩).1 :=
  ((exit_code_right_iff "/tmp\n".toList 0 true).1 Unit Str _ _ _ _ _ rfl).2
    (not_forges_of_complete (Or.inr (by decide)) 0)

/-- `printf 7` succeeds and is reported with exit code 70. -/
theorem exec_glues_status :
    ((ScpFs.exec "printf 7".toList : Remote ScpFs Str _) (shellServer fun _ => replyOf "7".toList 0 true)
      ⟨⟨some ⟨0⟩, ['/'], .new "host".toList⟩, [], []⟩).1 = .ok (70, []) ∧ (70 : UInt32) ≠ 0 := by
  decide

end RemotefsSsh
