import RemotefsSsh.Sent
import RemotefsSsh.Stamps

/-!
# What `setstat` applies over SCP (ssh/scp.rs:379-418)

For a `setstat` that returns, the lines sent (`Sent`) are the existence test and `setstatCmds`: one command for each
attribute, but none for a group without a user. What a line sets is what the shell reads in it, with the time that the
server's clock reads in a stamp (`setstat_applies_iff`).
-/

namespace RemotefsSsh

open Utf8 UnixPath Effect Prog

namespace ScpFs

/-! ## The commands of a `setstat` -/

/-- The time as `touch -t` takes it. -/
def stamp (L : Libs) (t : SystemTime) : Option Str := L.chrono.formatUtc t "%Y%m%d%H%M.%S".toList

/-- What is run for the attributes that are given. -/
def setstatCmds (L : Libs) (m : Metadata) (path : PathBuf) : List ShellCmd :=
  (m.mode.map fun mode => ShellCmd.chmod mode.toU32 path).toList ++
    (m.uid.map fun user => ShellCmd.chown user m.gid path).toList ++
    ((m.accessed.bind (stamp L)).map fun time => ShellCmd.touchAccess time path).toList ++
    ((m.modified.bind (stamp L)).map fun time => ShellCmd.touchModify time path).toList

section
variable {σ : Type} {H : Handler Ssh σ} {st st' : St Ssh ScpFs σ} {L : Libs}

/-- A `touch`, when its time can be written. -/
theorem touch_sent {o : Option SystemTime} {c : Str → ShellCmd} (hc : ∀ time, (c time).withRc = true)
    (h : ifSome o (fun t => do assertStatCommand (c (← touchTime L t))) H st = (.ok (), st')) :
    (∀ t, o = some t → ∃ time, stamp L t = some time) ∧ Sent ((o.bind (stamp L)).map c).toList st st' := by
  cases o with
  | none => cases h; exact ⟨by simp, .refl st⟩
  | some t =>
    have h : (do assertStatCommand (c (← touchTime L t))) H st = (.ok (), st') := h
    obtain ⟨time, st₁, h₁, h⟩ := bind_eq_ok h
    rw [touchTime, ofOut_run, fmtTimeUtc] at h₁
    cases hs : L.chrono.formatUtc t "%Y%m%d%H%M.%S".toList with
    | none => rw [hs] at h₁; cases h₁
    | some s =>
      rw [hs] at h₁
      cases h₁
      have hstamp : stamp L t = some time := hs
      refine ⟨fun t' ht => ?_, ?_⟩
      · cases ht
        exact ⟨time, hstamp⟩
      · rw [Option.bind_some, hstamp]
        exact runRc_sent (hc time) h

theorem setstat_sent {path : PathBuf} {m : Metadata} (h : setstat L path m H st = (.ok (), st')) :
    (∀ t, m.accessed = some t ∨ m.modified = some t → ∃ time, stamp L t = some time) ∧
      Sent (.existsPath (absolutize st.self.wrkdir (absolutize st.self.wrkdir path)) ::
        setstatCmds L m (absolutize st.self.wrkdir path)) st st' := by
  unfold setstat at h
  obtain ⟨_, st₁, h₁, h⟩ := bind_eq_ok h
  have hcheck := checkConnection_sent h₁
  rw [bind_ok self_run, hcheck.self] at h
  obtain ⟨b, st₂, h₂, h⟩ := bind_eq_ok h
  cases b with
  | false => cases h
  | true =>
    have hexists := existsOrFalse_sent h₂
    rw [hcheck.self] at hexists
    rw [if_pos rfl] at h
    obtain ⟨_, st₃, h₃, h⟩ := bind_eq_ok h
    obtain ⟨_, st₄, h₄, h⟩ := bind_eq_ok h
    obtain ⟨_, st₅, h₅, h₆⟩ := bind_eq_ok h
    have hchmod := ifSome_sent (fun mode s s' => runRc_sent (c := .chmod (UnixPex.toU32 mode) _) rfl) h₃
    have hchown := ifSome_sent (fun user s s' => runRc_sent (c := .chown user m.gid _) rfl) h₄
    obtain ⟨haccess, htouchA⟩ := touch_sent (fun _ => rfl) h₅
    obtain ⟨hmodify, htouchM⟩ := touch_sent (fun _ => rfl) h₆
    refine ⟨fun t ht => ht.elim (haccess t) (hmodify t), ?_⟩
    have hall := hcheck.trans (hexists.trans (((hchmod.trans hchown).trans htouchA).trans htouchM))
    exact hall

end

/-! ## Attributes -/

inductive Field where
  | mode
  | uid
  | gid
  | accessed
  | modified
deriving DecidableEq, Repr

/-- An attribute and the value it is to have. -/
inductive Attr where
  | mode (mode : UnixPex)
  | uid (user : UInt32)
  | gid (group : UInt32)
  | accessed (time : SystemTime)
  | modified (time : SystemTime)

def Attr.field : Attr → Field
  | mode _ => .mode
  | uid _ => .uid
  | gid _ => .gid
  | accessed _ => .accessed
  | modified _ => .modified

/-- Whether `m` gives a value for the field. -/
def given (m : Metadata) : Field → Bool
  | .mode => m.mode.isSome
  | .uid => m.uid.isSome
  | .gid => m.gid.isSome
  | .accessed => m.accessed.isSome
  | .modified => m.modified.isSome

def asks (m : Metadata) : Attr → Prop
  | .mode mode => m.mode = some mode
  | .uid user => m.uid = some user
  | .gid group => m.gid = some group
  | .accessed time => m.accessed = some time
  | .modified time => m.modified = some time

def times (m : Metadata) : List SystemTime := m.accessed.toList ++ m.modified.toList

theorem mem_times {m : Metadata} {t : SystemTime} : t ∈ times m ↔ m.accessed = some t ∨ m.modified = some t := by
  simp only [times, List.mem_append, Option.mem_toList]

/-- What a command sets when it exits with 0, by the utilities' own rules. `read` finds the second that an argument of
`touch -t` stands for on the server; the time is set to that second, without a fraction. -/
inductive SetsAttr (read : Str → Option Int) (path : PathBuf) : List Str → Attr → Prop where
  | mode (mode : UnixPex) : SetsAttr read path ["chmod".toList, octal mode.toU32.toNat, path] (.mode mode)
  | uid (user : UInt32) (gid : Option UInt32) : SetsAttr read path
      ["chown".toList, decimal user.toNat ++ (gid.map fun x => ':' :: decimal x.toNat).getD [], path] (.uid user)
  | gid (owner : Str) (group : UInt32) : SetsAttr read path
      ["chown".toList, owner ++ ':' :: decimal group.toNat, path] (.gid group)
  | accessed {arg : Str} {time : SystemTime} : read arg = some time.secs → time.nanos = 0 →
    SetsAttr read path ["touch".toList, "-a".toList, "-t".toList, arg, path] (.accessed time)
  | modified {arg : Str} {time : SystemTime} : read arg = some time.secs → time.nanos = 0 →
    SetsAttr read path ["touch".toList, "-m".toList, "-t".toList, arg, path] (.modified time)

/-- The shell reads the line as a command that sets the attribute, and then prints its status. -/
def LineSets (read : Str → Option Int) (path : PathBuf) (line : Str) (a : Attr) : Prop :=
  ∃ ws, SetsAttr read path ws a ∧ Sh.parse line = some [ws.map Sh.lits, ShellCmd.echoStatus]

/-- Every attribute asked for was set by a command that exited with 0, and no command that the shell reads in any of the
lines sets another, of any path. -/
structure Applied (read : Str → Option Int) (path : PathBuf) (m : Metadata) (log : List (Sigma SshCall.Reply)) :
    Prop where
  all : ∀ a, asks m a → ∃ line, LineSets read path line a ∧ RanWith 0 line log
  only : ∀ line ∈ linesOf log, ∀ cmds, Sh.parse line = some cmds → ∀ ws a q, ws.map Sh.lits ∈ cmds →
    SetsAttr read q ws a → given m a.field = true

/-! ## What the shell reads in the lines -/

theorem line_of_ranWith {v : UInt32} {line : Str} {log : List (Sigma SshCall.Reply)} (h : RanWith v line log) :
    line ∈ linesOf log := by
  obtain ⟨session, ch, reply, closed, ⟨a, b, rfl⟩, _⟩ := h
  simp [linesOf, shellRun]

theorem not_mem_decimal {c : Char} (hc : c.isDigit = false) (n : Nat) : c ∉ decimal n := fun h => by
  rw [isDigit_of_mem_decimal h] at hc
  cases hc

section
variable {L : Libs} {first last : Int} {read : Str → Option Int} {m : Metadata} {path q : PathBuf}
    {c : ShellCmd} {a : Attr}

theorem mem_setstatCmds : c ∈ setstatCmds L m path ↔ (∃ mode, m.mode = some mode ∧ c = .chmod mode.toU32 path) ∨
    (∃ user, m.uid = some user ∧ c = .chown user m.gid path) ∨
    (∃ t s, m.accessed = some t ∧ stamp L t = some s ∧ c = .touchAccess s path) ∨
    ∃ t s, m.modified = some t ∧ stamp L t = some s ∧ c = .touchModify s path := by
  simp only [setstatCmds, List.mem_append, Option.mem_toList, Option.map_eq_some_iff, Option.bind_eq_some_iff, or_assoc]
  constructor
  · rintro (⟨mode, hm, rfl⟩ | ⟨user, hu, rfl⟩ | ⟨s, ⟨t, ht, hs⟩, rfl⟩ | ⟨s, ⟨t, ht, hs⟩, rfl⟩)
    · exact Or.inl ⟨mode, hm, rfl⟩
    · exact Or.inr (Or.inl ⟨user, hu, rfl⟩)
    · exact Or.inr (Or.inr (Or.inl ⟨t, s, ht, hs, rfl⟩))
    · exact Or.inr (Or.inr (Or.inr ⟨t, s, ht, hs, rfl⟩))
  · rintro (⟨mode, hm, rfl⟩ | ⟨user, hu, rfl⟩ | ⟨t, s, ht, hs, rfl⟩ | ⟨t, s, ht, hs, rfl⟩)
    · exact Or.inl ⟨mode, hm, rfl⟩
    · exact Or.inr (Or.inl ⟨user, hu, rfl⟩)
    · exact Or.inr (Or.inr (Or.inl ⟨s, ⟨t, ht, hs⟩, rfl⟩))
    · exact Or.inr (Or.inr (Or.inr ⟨s, ⟨t, ht, hs⟩, rfl⟩))

theorem eq_civilStamp (hL : L.chrono.Formats first last) {t : SystemTime} {s : Str} (h : stamp L t = some s) :
    s = civilStamp t := by
  by_cases hk : Known first last t
  · rw [stamp, hL.known t hk] at h
    exact (Option.some.inj h).symm
  · rw [stamp, hL.unknown t hk] at h
    cases h

theorem aroundPaths_setstatCmds (hL : L.chrono.Formats first last) (hc : c ∈ .existsPath q :: setstatCmds L m path) :
    c.AroundPaths := by
  rw [List.mem_cons, mem_setstatCmds] at hc
  rcases hc with rfl | ⟨mode, -, rfl⟩ | ⟨user, -, rfl⟩ | ⟨t, s, -, hs, rfl⟩ | ⟨t, s, -, hs, rfl⟩
  · trivial
  · trivial
  · trivial
  · exact eq_civilStamp hL hs ▸ ordinary_civilStamp t
  · exact eq_civilStamp hL hs ▸ ordinary_civilStamp t

/-- What the words of a command can have set: a field that is given, a group only beside a user, and a time as the
server reads its stamp, which is a whole second. -/
def Attr.Passed (L : Libs) (read : Str → Option Int) (m : Metadata) : Attr → Prop
  | .mode _ => m.mode.isSome = true
  | .uid _ => m.uid.isSome = true
  | .gid _ => m.gid.isSome = true ∧ m.uid.isSome = true
  | .accessed t => ∃ t' s, m.accessed = some t' ∧ stamp L t' = some s ∧ read s = some t.secs ∧ t.nanos = 0
  | .modified t => ∃ t' s, m.modified = some t' ∧ stamp L t' = some s ∧ read s = some t.secs ∧ t.nanos = 0

theorem Attr.Passed.given (h : a.Passed L read m) : given m a.field = true := by
  cases a with
  | mode mode => exact h
  | uid user => exact h
  | gid group => exact h.1
  | accessed t => obtain ⟨t', s, ht, -⟩ := h; exact Option.isSome_iff_exists.2 ⟨t', ht⟩
  | modified t => obtain ⟨t', s, ht, -⟩ := h; exact Option.isSome_iff_exists.2 ⟨t', ht⟩

/-- A command of a `setstat` sets what was given, whatever its path is. -/
theorem passed_of_sets (hc : c ∈ .existsPath q :: setstatCmds L m path) {p p' : PathBuf}
    (h : SetsAttr read p (c.front ++ [p']) a) : a.Passed L read m := by
  rw [List.mem_cons, mem_setstatCmds] at hc
  generalize hws : c.front ++ [p'] = ws at h
  rcases hc with rfl | ⟨mode, hm, rfl⟩ | ⟨user, hu, rfl⟩ | ⟨t, s, ht, hs, rfl⟩ | ⟨t, s, ht, hs, rfl⟩
  · cases h <;> simp [ShellCmd.front] at hws
  · cases h with
    | mode _ => exact Option.isSome_iff_exists.2 ⟨mode, hm⟩
    | _ => simp [ShellCmd.front] at hws
  · have huser : m.uid.isSome = true := Option.isSome_iff_exists.2 ⟨user, hu⟩
    cases h with
    | uid _ _ => exact huser
    | gid owner group =>
      refine ⟨?_, huser⟩
      -- only the colon of a group separates
      cases hg : m.gid with
      | some g => rfl
      | none =>
        have howner : decimal user.toNat = owner ++ ':' :: decimal group.toNat := by
          simpa [ShellCmd.front, hg] using congrArg (fun ws => ws.getD 1 []) hws
        have hcolon : ':' ∈ decimal user.toNat := by rw [howner]; simp
        exact absurd hcolon (not_mem_decimal rfl _)
    | _ => simp [ShellCmd.front] at hws
  · cases h with
    | @accessed arg time hread hwhole =>
      have harg : s = arg ∧ p' = p := by simpa [ShellCmd.front] using hws
      exact ⟨t, s, ht, hs, harg.1 ▸ hread, hwhole⟩
    | _ => simp [ShellCmd.front] at hws
  · cases h with
    | @modified arg time hread hwhole =>
      have harg : s = arg ∧ p' = p := by simpa [ShellCmd.front] using hws
      exact ⟨t, s, ht, hs, harg.1 ▸ hread, hwhole⟩
    | _ => simp [ShellCmd.front] at hws

/-- The words of a command that sets an attribute, from those at its front. -/
theorem words_of_prefix (hc : c ∈ .existsPath q :: setstatCmds L m path) {ws : List Str} (hws : c.front <+: ws)
    (h : SetsAttr read path ws a) : ws = c.front ++ [path] ∧ c ∈ setstatCmds L m path := by
  rcases List.mem_cons.1 hc with rfl | hmem
  · obtain ⟨rest, rfl⟩ := hws
    generalize hws : (ShellCmd.existsPath q).front ++ rest = ws at h
    cases h <;> simp [ShellCmd.front] at hws
  · refine ⟨?_, hmem⟩
    obtain ⟨rest, rfl⟩ := hws
    generalize hws : c.front ++ rest = ws at h
    rw [mem_setstatCmds] at hmem
    rcases hmem with ⟨mode, -, rfl⟩ | ⟨user, -, rfl⟩ | ⟨t, s, -, -, rfl⟩ | ⟨t, s, -, -, rfl⟩ <;>
      cases h <;> simp_all [ShellCmd.front]

theorem lits_injective : Function.Injective Sh.lits := List.map_injective_iff.2 fun _ _ h => Sh.Piece.lit.inj h

/-- The commands around the paths of a `setstat`. -/
theorem commands_setstatCmds (hc : c ∈ .existsPath q :: setstatCmds L m path) :
    ∃ p, (p = q ∨ p = path) ∧ c.paths = [p] ∧ c.beforeText = [] ∧
      c.commands = [(c.front ++ [p]).map Sh.lits, ShellCmd.echoStatus] := by
  have hmap : ∀ p, c.paths = [p] → c.before = [] → c.after = [ShellCmd.echoStatus] →
      c.commands = [(c.front ++ [p]).map Sh.lits, ShellCmd.echoStatus] := fun p hp hb ha => by
    rw [ShellCmd.commands, hp, hb, ha]
    simp
  rw [List.mem_cons, mem_setstatCmds] at hc
  rcases hc with rfl | ⟨mode, -, rfl⟩ | ⟨user, -, rfl⟩ | ⟨t, s, -, -, rfl⟩ | ⟨t, s, -, -, rfl⟩
  · exact ⟨q, Or.inl rfl, rfl, rfl, hmap q rfl rfl rfl⟩
  all_goals exact ⟨path, Or.inr rfl, rfl, rfl, hmap path rfl rfl rfl⟩

/-- A path for which the shell reads a line as setting an attribute is plain, and what is set is what was given. -/
theorem plain_of_lineSets (hL : L.chrono.Formats first last) (hc : c ∈ .existsPath q :: setstatCmds L m path)
    (h : LineSets read path c.line a) : Sh.Plain path ∧ a.Passed L read m := by
  obtain ⟨ws, hsets, hparse⟩ := h
  have haround := aroundPaths_setstatCmds hL hc
  obtain ⟨-, -, -, hbefore, -⟩ := commands_setstatCmds hc
  have hfront : c.front ≠ [] := by cases c <;> simp [ShellCmd.front]
  have hwords : ws = c.front ++ [path] ∧ c ∈ setstatCmds L m path := by
    have hline := hparse
    rw [ShellCmd.line_eq haround, hbefore, List.nil_append] at hline
    obtain ⟨cmd, cmds, heq, hprefix⟩ := Sh.Lex.prefix_of_parse hfront (ShellCmd.ordinary_front haround) hline
    cases heq
    exact words_of_prefix hc ((List.prefix_map_iff_of_injective lits_injective).1 hprefix) hsets
  obtain ⟨rfl, hmem⟩ := hwords
  refine ⟨?_, passed_of_sets hc hsets⟩
  obtain ⟨p, hp, hpaths, -, hcommands⟩ := commands_setstatCmds (q := path) (List.mem_cons_of_mem _ hmem)
  obtain rfl : p = path := hp.elim id id
  rw [← hcommands] at hparse
  exact (ShellCmd.line_reads_iff c haround).1 hparse p (by rw [hpaths]; exact List.mem_singleton_self p)

/-- Around plain paths the lines are read as they are meant. -/
theorem read_setstatCmds (hL : L.chrono.Formats first last) (hq : Sh.Plain q) (hpath : Sh.Plain path)
    (hc : c ∈ .existsPath q :: setstatCmds L m path) : ∃ p, (p = q ∨ p = path) ∧
      Sh.parse c.line = some [(c.front ++ [p]).map Sh.lits, ShellCmd.echoStatus] := by
  obtain ⟨p, hp, hpaths, -, hcommands⟩ := commands_setstatCmds hc
  have hplain : ∀ x ∈ c.paths, Sh.Plain x := by
    rw [hpaths]
    intro x hx
    rw [List.mem_singleton.1 hx]
    rcases hp with rfl | rfl
    · exact hq
    · exact hpath
  exact ⟨p, hp, by rw [(ShellCmd.line_reads_iff c (aroundPaths_setstatCmds hL hc)).2 hplain, hcommands]⟩

/-- Between plain paths the shell reads nothing but the line's own command. -/
theorem passed_of_read (hL : L.chrono.Formats first last) (hq : Sh.Plain q) (hpath : Sh.Plain path)
    (hc : c ∈ .existsPath q :: setstatCmds L m path) {cmds : List (List Sh.Word)} (hcmds : Sh.parse c.line = some cmds)
    {ws : List Str} {p : PathBuf} (hws : ws.map Sh.lits ∈ cmds) (h : SetsAttr read p ws a) : a.Passed L read m := by
  obtain ⟨p', -, hread⟩ := read_setstatCmds hL hq hpath hc
  rw [hread] at hcmds
  cases hcmds
  rcases List.mem_cons.1 hws with hws | hws
  · rw [(List.map_injective_iff.2 lits_injective hws : ws = c.front ++ [p'])] at h
    exact passed_of_sets hc h
  · rw [List.mem_singleton] at hws
    cases h <;> simp [ShellCmd.echoStatus, Sh.lits] at hws

end

/-- A path that is given relative to a relative directory is named from there twice over. -/
theorem plain_absolutize_twice {w p : PathBuf} (h : Sh.Plain (absolutize w p)) :
    Sh.Plain (absolutize w (absolutize w p)) := by
  have htwice : ∀ x y : Str, Sh.Plain (x ++ '/' :: y) → Sh.Plain (x ++ '/' :: (x ++ '/' :: y)) := fun x y hxy =>
    Sh.plain_append_slash.2 ⟨(Sh.plain_append_slash.1 hxy).1, hxy⟩
  generalize hq : absolutize w p = q at h
  by_cases habs : isAbsolute q = true
  · rwa [absolutize, if_pos habs]
  · have hp : isAbsolute p ≠ true := fun hp => by
      rw [absolutize, if_pos hp] at hq
      exact habs (hq ▸ hp)
    rw [absolutize, if_neg hp, push, if_neg hp] at hq
    rw [absolutize, if_neg habs, push, if_neg habs]
    by_cases hw : w = [] ∨ w.getLast? = some '/'
    · rw [if_pos hw] at hq ⊢
      rcases hw with rfl | hw
      · exact h
      · obtain ⟨u, rfl⟩ := List.getLast?_eq_some_iff.1 hw
        rw [← hq, List.append_assoc, List.singleton_append] at h ⊢
        simpa using htwice u p h
    · rw [if_neg hw] at hq ⊢
      rw [← hq] at h ⊢
      exact htwice w p h

/-- **A `setstat` that returns applied everything it was asked for, and nothing else, exactly when the path is plain, a
group came with a user, and each time that was given is a whole second that the server's clock reads back.** Where
nothing is asked for, the path is taken to be plain: all that is sent is the test. -/
theorem setstat_applies_iff {σ : Type} {H : Handler Ssh σ} {st st' : St Ssh ScpFs σ} {L : Libs} {first last : Int}
    (hL : L.chrono.Formats first last) (zone : Int → Option Int) (thisYear : Nat) {path : PathBuf} {m : Metadata}
    (hask : Sh.Plain (absolutize st.self.wrkdir path) ∨ ∃ a, asks m a) (h : setstat L path m H st = (.ok (), st')) :
    (∃ new, st'.log = st.log ++ new ∧
        Applied (fun arg => (readTouch thisYear arg).bind zone) (absolutize st.self.wrkdir path) m new) ↔
      Sh.Plain (absolutize st.self.wrkdir path) ∧ (m.gid.isSome = true → m.uid.isSome = true) ∧
        ∀ t ∈ times m, t.nanos = 0 ∧ FourDigits t ∧ zone t.secs = some t.secs := by
  obtain ⟨hstamps, -, new, hlog, hlines, hran⟩ := setstat_sent h
  have hcmd : ∀ line ∈ linesOf new, ∃ c ∈ ShellCmd.existsPath
    (absolutize st.self.wrkdir (absolutize st.self.wrkdir path)) ::
      setstatCmds L m (absolutize st.self.wrkdir path), c.line = line := fun line hline => by
    rwa [hlines, List.mem_map] at hline
  have hread : ∀ t s, stamp L t = some s → ((readTouch thisYear s).bind zone = some t.secs ↔
      FourDigits t ∧ zone t.secs = some t.secs) := fun t s hs => by
    rw [eq_civilStamp hL hs]
    by_cases hfour : FourDigits t
    · rw [(readTouch_civilStamp thisYear t).1 hfour, Option.bind_some]
      exact (and_iff_right hfour).symm
    · rw [(readTouch_civilStamp thisYear t).2 hfour]
      exact iff_of_false nofun fun ht => hfour ht.1
  constructor
  · rintro ⟨new', hlog', happlied⟩
    obtain rfl : new' = new := List.append_cancel_left (hlog'.symm.trans hlog)
    have hset : ∀ a, asks m a → Sh.Plain (absolutize st.self.wrkdir path) ∧
        a.Passed L (fun arg => (readTouch thisYear arg).bind zone) m := fun a ha => by
      obtain ⟨line, hsets, hrun⟩ := happlied.all a ha
      obtain ⟨c, hc, rfl⟩ := hcmd line (line_of_ranWith hrun)
      exact plain_of_lineSets hL hc hsets
    refine ⟨hask.elim id fun ⟨a, ha⟩ => (hset a ha).1, fun hgid => ?_, fun t ht => ?_⟩
    · obtain ⟨g, hg⟩ := Option.isSome_iff_exists.1 hgid
      exact (hset (.gid g) hg).2.2
    · rcases mem_times.1 ht with ha | hm
      · obtain ⟨t', s, ht', hs, hpassed, hwhole⟩ := (hset (.accessed t) ha).2
        cases ha.symm.trans ht'
        exact ⟨hwhole, (hread t s hs).1 hpassed⟩
      · obtain ⟨t', s, ht', hs, hpassed, hwhole⟩ := (hset (.modified t) hm).2
        cases hm.symm.trans ht'
        exact ⟨hwhole, (hread t s hs).1 hpassed⟩
  · rintro ⟨hplain, hgroup, htimes⟩
    have hplain' := plain_absolutize_twice hplain
    refine ⟨new, hlog, fun a ha => ?_, fun line hline cmds hcmds ws a p hws hsets => ?_⟩
    · -- the command that sets `a`, and its words
      have hset : ∃ c ∈ setstatCmds L m (absolutize st.self.wrkdir path),
          SetsAttr (fun arg => (readTouch thisYear arg).bind zone) (absolutize st.self.wrkdir path)
            (c.front ++ [absolutize st.self.wrkdir path]) a := by
        simp only [mem_setstatCmds]
        cases a with
        | mode mode => exact ⟨_, Or.inl ⟨mode, ha, rfl⟩, .mode mode⟩
        | uid user => exact ⟨_, Or.inr (Or.inl ⟨user, ha, rfl⟩), .uid user m.gid⟩
        | gid group =>
          have ha : m.gid = some group := ha
          obtain ⟨user, hu⟩ := Option.isSome_iff_exists.1 (hgroup (by rw [ha]; rfl))
          refine ⟨_, Or.inr (Or.inl ⟨user, hu, rfl⟩), ?_⟩
          rw [ha]
          exact .gid (decimal user.toNat) group
        | accessed t =>
          obtain ⟨s, hs⟩ := hstamps t (Or.inl ha)
          obtain ⟨hwhole, ht⟩ := htimes t (mem_times.2 (Or.inl ha))
          exact ⟨_, Or.inr (Or.inr (Or.inl ⟨t, s, ha, hs, rfl⟩)), .accessed ((hread t s hs).2 ht) hwhole⟩
        | modified t =>
          obtain ⟨s, hs⟩ := hstamps t (Or.inr ha)
          obtain ⟨hwhole, ht⟩ := htimes t (mem_times.2 (Or.inr ha))
          exact ⟨_, Or.inr (Or.inr (Or.inr ⟨t, s, ha, hs, rfl⟩)), .modified ((hread t s hs).2 ht) hwhole⟩
      obtain ⟨c, hc, hsets⟩ := hset
      obtain ⟨p, hp, hparse⟩ := read_setstatCmds hL hplain hplain (List.mem_cons_of_mem _ hc)
      rw [hp.elim id id] at hparse
      exact ⟨c.line, ⟨_, hsets, hparse⟩, hran c (List.mem_cons_of_mem _ hc)⟩
    · obtain ⟨c, hc, rfl⟩ := hcmd line hline
      exact (passed_of_read hL hplain' hplain hc hcmds hws hsets).given

/-- A client connected to a server on which every command succeeds. -/
def setstatStart : St Ssh ScpFs Str := ⟨⟨some ⟨0⟩, "/srv".toList, SshOpts.new "h".toList⟩, [], []⟩

def zeroServer : Handler Ssh Str := shellServer fun _ => "0\n".toList

/-- A user, a group and a time, on a server that keeps UTC. -/
theorem setstat_applies_owner : ∃ new,
    (setstat civilLibs "a".toList
        { Metadata.ofSize 0 with uid := some 1, gid := some 2, modified := some .UNIX_EPOCH }
          zeroServer setstatStart).2.log =
      [] ++ new ∧
    Applied (fun arg => (readTouch 2024 arg).bind some) "/srv/a".toList
      { Metadata.ofSize 0 with uid := some 1, gid := some 2, modified := some .UNIX_EPOCH } new :=
  (@setstat_applies_iff Str zeroServer setstatStart _ civilLibs _ _ civilLibs_formats some 2024 "a".toList
    { Metadata.ofSize 0 with uid := some 1, gid := some 2, modified := some .UNIX_EPOCH } (Or.inl (by decide))
    (Prod.ext (by decide +kernel) rfl)).2
    ⟨by decide, fun _ => rfl, by decide +kernel⟩

/-- A group without a user is passed over, and the call succeeds. -/
theorem setstat_skips_group :
    (setstat civilLibs "a".toList { Metadata.ofSize 0 with gid := some 2 } zeroServer setstatStart).1 = .ok () ∧
      ¬ ∃ new, (setstat civilLibs "a".toList { Metadata.ofSize 0 with gid := some 2 } zeroServer setstatStart).2.log =
          [] ++ new ∧
        Applied (fun arg => (readTouch 2024 arg).bind some) "/srv/a".toList
          { Metadata.ofSize 0 with gid := some 2 } new := by
  have hrun : (setstat civilLibs "a".toList { Metadata.ofSize 0 with gid := some 2 } zeroServer setstatStart).1 =
      .ok () := by decide +kernel
  have hlines : linesOf (setstat civilLibs "a".toList { Metadata.ofSize 0 with gid := some 2 } zeroServer
      setstatStart).2.log = [(ShellCmd.existsPath "/srv/a".toList).line] := by decide +kernel
  refine ⟨hrun, ?_⟩
  rintro ⟨new, hlog, happlied⟩
  rw [hlog, List.nil_append] at hlines
  obtain ⟨line, hsets, hc⟩ := happlied.all (.gid 2) rfl
  have hline := line_of_ranWith hc
  rw [hlines, List.mem_singleton] at hline
  subst hline
  obtain ⟨-, -, huser⟩ := plain_of_lineSets (L := civilLibs) (m := { Metadata.ofSize 0 with gid := some 2 })
    civilLibs_formats List.mem_cons_self hsets
  cases huser

end ScpFs

end RemotefsSsh
