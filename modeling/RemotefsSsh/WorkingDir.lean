import RemotefsSsh.Client
import RemotefsSsh.Hosts

/-!
# The working directory of the two clients (ssh/scp.rs:272-300, ssh/sftp.rs:204-220)

`ScpFs` stores what the shell's `pwd` prints, a path without `..`; `SftpFs` stores the joined path it
asked for. As long as no joined path has a `..` in it and none ends in white space, which the answer
of `pwd` loses, the two stay equal over any run (`pwd_agree_of_run`).
-/

namespace RemotefsSsh

open Utf8 UnixPath Effect Prog

/-- `cd` leads to the logical path of an absolute directory. -/
def LogicalCd {ω : Type} (M : Sh.Machine ω) : Prop :=
  ∀ w cwd dir d, isAbsolute dir = true → M.enter w cwd dir = some d → d = logical dir

theorem components_absolutize {wrkdir : PathBuf} (h : isAbsolute wrkdir = true) (target : PathBuf) :
    components (absolutize wrkdir target) =
      if isAbsolute target then components target else components wrkdir ++ (segs target).filterMap ofSeg := by
  unfold absolutize
  split
  · rfl
  · exact components_push h (Bool.eq_false_iff.2 ‹_›)

/-! ## One call -/

section
variable {σ : Type} {H : Handler Ssh σ}

/-- What a `change_dir` that returns did. -/
theorem ScpFs.changeDir_eq_ok {dir p : PathBuf} {st st' : St Ssh ScpFs σ}
    (h : ScpFs.changeDir dir H st = (.ok p, st')) :
    ∃ session st₁ st₂ output rest, checkConnection H st = (.ok (), st₁) ∧
      performShellCmd session (ShellCmd.changeDir (absolutize st₁.self.wrkdir dir)).text H st₁ = (.ok output, st₂) ∧
      (trim output).head? = some '0' ∧ sliceFrom (trim output) 1 = some rest ∧
      p = trim rest ∧ st' = { st₂ with self := { st₂.self with wrkdir := trim rest } } := by
  unfold changeDir at h
  obtain ⟨_, st₁, h₁, h⟩ := bind_eq_ok h
  rw [bind_ok self_run] at h
  obtain ⟨session, -, h⟩ := unwrap_self_eq_ok h
  obtain ⟨r, st₂, h₂, h⟩ := bind_eq_ok h
  cases r with
  | error err => cases h
  | ok output =>
    dsimp only at h
    by_cases h0 : (trim output).head? = some '0'
    · rw [if_pos h0] at h
      obtain ⟨rest, st₃, h₃, h⟩ := bind_eq_ok h
      cases hslice : sliceFrom (trim output) 1 with
      | none => rw [hslice] at h₃; cases h₃
      | some r =>
        rw [hslice] at h₃
        cases h₃
        cases h
        exact ⟨session, st₁, _, output, _, h₁, attempt_eq_ok h₂, h0, hslice, rfl, rfl⟩
    · rw [if_neg h0] at h
      cases h

theorem SftpFs.changeDir_eq_ok {dir p : PathBuf} {st st' : St Ssh SftpFs σ}
    (h : SftpFs.changeDir dir H st = (.ok p, st')) :
    p = absolutize st.self.wrkdir dir ∧ st'.self.wrkdir = absolutize st.self.wrkdir dir := by
  unfold changeDir at h
  obtain ⟨_, st₁, h₁, h⟩ := bind_eq_ok h
  have hself := checkConnection_self (H := H) st
  rw [h₁] at hself
  rw [bind_ok self_run, hself] at h
  obtain ⟨file, st₂, h₂, h⟩ := bind_eq_ok h
  by_cases hd : file.isDir = true
  · rw [if_pos hd] at h
    cases h
    exact ⟨rfl, rfl⟩
  · rw [if_neg hd] at h
    cases h

end

/-- What a directory must be like for both clients to store the same path for it. -/
structure Follows (wrkdir dir : PathBuf) : Prop where
  plain : Sh.Plain (absolutize wrkdir dir)
  no_up : .parentDir ∉ components (absolutize wrkdir dir)
  no_white_end : ∀ n, fileName (absolutize wrkdir dir) = some n → ∀ c, n.getLast? = some c → isWhite c = false

/-- A path that is followed is shown as it is and survives the trimming. -/
theorem trim_logical {q : PathBuf} (habs : isAbsolute q = true) (hup : .parentDir ∉ components q)
    (hend : ∀ n, fileName q = some n → ∀ c, n.getLast? = some c → isWhite c = false) :
    trim (logical q) = logical q := by
  obtain ⟨ns, hns, hnames⟩ := components_absolute habs hup
  have hlogical : logical q = ofNames ns := by unfold logical; rw [hns, logicalNames_normal]
  have hslash : isWhite '/' = false := by decide
  rw [hlogical]
  refine trim_tight ⟨fun c hc => ?_, fun c hc => ?_⟩
  · cases hc
    exact hslash
  · rcases List.eq_nil_or_concat ns with rfl | ⟨ms, n, rfl⟩
    · cases hc
      exact hslash
    · rw [List.concat_eq_append] at hc hns hnames
      have hn := hnames n (by simp)
      rw [getLast_ofNames hn.1] at hc
      refine hend n (fileName_eq_some.2 ?_) c hc
      rw [hns, List.map_append, List.map_singleton, ← List.cons_append, List.getLast?_concat]

section
variable {σ₁ σ₂ ω : Type} {M : Sh.Machine ω} {world : σ₁ → ω} {H₁ : Handler Ssh σ₁} {H₂ : Handler Ssh σ₂}

/-- The SCP client stores the logical path of the joined one. -/
theorem ScpFs.changeDir_logical (hH : Hosts M world H₁) (hM : LogicalCd M) {dir p : PathBuf} {st st' : St Ssh ScpFs σ₁}
    (habs : isAbsolute st.self.wrkdir = true) (hplain : Sh.Plain (absolutize st.self.wrkdir dir))
    (h : ScpFs.changeDir dir H₁ st = (.ok p, st')) :
    st'.self.wrkdir = trim (logical (absolutize st.self.wrkdir dir)) := by
  obtain ⟨session, st₁, st₂, output, rest, h₁, h₂, h0, hrest, rfl, rfl⟩ := changeDir_eq_ok h
  obtain ⟨hself, -, -⟩ := checkConnection_looks hH h₁
  rw [hself] at h₂
  obtain ⟨-, ⟨d, henter, rfl⟩ | ⟨-, rfl⟩⟩ := hH.cd hplain h₂
  · have hd := hM _ _ _ _ (isAbsolute_absolutize habs dir) henter
    show trim rest = _
    rw [changeDir_answer h0 hrest, trim_append_blank newline_blank, hd]
  · exact absurd (answer_zero h0) (by decide)

/-! ## Runs -/

/-- Both clients go through the same calls of `change_dir`, each of which is `ok` where it starts and
succeeds on both. -/
inductive BothChange (H₁ : Handler Ssh σ₁) (H₂ : Handler Ssh σ₂) (ok : PathBuf → PathBuf → Prop) :
    List PathBuf → St Ssh ScpFs σ₁ × St Ssh SftpFs σ₂ → St Ssh ScpFs σ₁ × St Ssh SftpFs σ₂ → Prop
  | nil (s : St Ssh ScpFs σ₁ × St Ssh SftpFs σ₂) : BothChange H₁ H₂ ok [] s s
  | cons {dir p₁ p₂ : PathBuf} {dirs : List PathBuf} {s s' t : St Ssh ScpFs σ₁ × St Ssh SftpFs σ₂} :
      ok s.1.self.wrkdir dir → ScpFs.changeDir dir H₁ s.1 = (.ok p₁, s'.1) →
      SftpFs.changeDir dir H₂ s.2 = (.ok p₂, s'.2) → BothChange H₁ H₂ ok dirs s' t →
      BothChange H₁ H₂ ok (dir :: dirs) s t

/-- What holds between two clients whose working directories agree. -/
structure InStep (s : St Ssh ScpFs σ₁ × St Ssh SftpFs σ₂) : Prop where
  scp : isAbsolute s.1.self.wrkdir = true
  sftp : isAbsolute s.2.self.wrkdir = true
  same : SamePath s.1.self.wrkdir s.2.self.wrkdir

/-- Both clients tell the same directory, when they tell one. -/
def PwdAgree (H₁ : Handler Ssh σ₁) (H₂ : Handler Ssh σ₂) (s : St Ssh ScpFs σ₁ × St Ssh SftpFs σ₂) : Prop :=
  ∀ p₁ p₂ t₁ t₂, ScpFs.pwd H₁ s.1 = (.ok p₁, t₁) → SftpFs.pwd H₂ s.2 = (.ok p₂, t₂) → SamePath p₁ p₂

theorem InStep.changeDir (hH : Hosts M world H₁) (hM : LogicalCd M) {dir p₁ p₂ : PathBuf}
    {s s' : St Ssh ScpFs σ₁ × St Ssh SftpFs σ₂} (h : InStep s) (hfollows : Follows s.1.self.wrkdir dir)
    (h₁ : ScpFs.changeDir dir H₁ s.1 = (.ok p₁, s'.1)) (h₂ : SftpFs.changeDir dir H₂ s.2 = (.ok p₂, s'.2)) :
    InStep s' := by
  have hq := isAbsolute_absolutize h.scp dir
  have htrim := trim_logical hq hfollows.no_up hfollows.no_white_end
  have hscp := ScpFs.changeDir_logical hH hM h.scp hfollows.plain h₁
  rw [htrim] at hscp
  have hsftp := (SftpFs.changeDir_eq_ok h₂).2
  refine ⟨?_, ?_, ?_⟩
  · rw [hscp]
    exact isAbsolute_ofNames _
  · rw [hsftp]
    exact isAbsolute_absolutize h.sftp dir
  · unfold SamePath
    rw [hscp, hsftp, components_logical hq hfollows.no_up, components_absolutize h.scp, components_absolutize h.sftp,
      h.same]

theorem InStep.run (hH : Hosts M world H₁) (hM : LogicalCd M) {dirs : List PathBuf}
    {s t : St Ssh ScpFs σ₁ × St Ssh SftpFs σ₂} (h : InStep s)
    (hrun : BothChange H₁ H₂ Follows dirs s t) : InStep t := by
  induction hrun with
  | nil s => exact h
  | cons hok h₁ h₂ _ ih => exact ih (h.changeDir hH hM hok h₁ h₂)

theorem InStep.pwd {s : St Ssh ScpFs σ₁ × St Ssh SftpFs σ₂} (h : InStep s) : PwdAgree H₁ H₂ s := by
  intro p₁ p₂ t₁ t₂ h₁ h₂
  unfold ScpFs.pwd at h₁
  unfold SftpFs.pwd at h₂
  obtain ⟨_, s₁, hc₁, h₁⟩ := bind_eq_ok h₁
  obtain ⟨_, s₂, hc₂, h₂⟩ := bind_eq_ok h₂
  have hself₁ := ScpFs.checkConnection_self (H := H₁) s.1
  have hself₂ := SftpFs.checkConnection_self (H := H₂) s.2
  rw [hc₁] at hself₁
  rw [hc₂] at hself₂
  cases h₁
  cases h₂
  have hsame := h.same
  rwa [← hself₁, ← hself₂] at hsame

/-- **In every run of `change_dir` calls that succeed on both clients and that both can follow, `pwd` is the
same on both after each call.** -/
theorem pwd_agree_of_run (hH : Hosts M world H₁) (hM : LogicalCd M) {dirs : List PathBuf}
    {s t : St Ssh ScpFs σ₁ × St Ssh SftpFs σ₂} (hstart : InStep s) (hrun : BothChange H₁ H₂ Follows dirs s t) :
    PwdAgree H₁ H₂ t := (hstart.run hH hM hrun).pwd

end

/-! ## The answer to `cd` -/

/-- A path is left as it is by the trimming exactly when it does not end in white space. -/
theorem trim_absolute_iff {q : PathBuf} (habs : isAbsolute q = true) :
    trim q = q ↔ ∀ c, q.getLast? = some c → isWhite c = false := by
  obtain ⟨b, hsplit, ha, hb, htight⟩ := trim_split q
  have hslash : ∀ c, q.head? = some c → isWhite c = false := by
    intro c hc
    rw [isAbsolute, hc] at habs
    obtain rfl : c = '/' := by simpa using habs
    decide
  constructor
  · intro h
    rw [h] at htight
    exact htight.2
  · intro h
    exact trim_tight ⟨hslash, h⟩

namespace ScpFs

section
variable {σ : Type} {H : Handler Ssh σ} {st st₁ st₂ : St Ssh ScpFs σ} {dir q : PathBuf} {k : Nat}

/-- `change_dir` tells of the exit code `k` and of the directory `q`. -/
structure Stores (H : Handler Ssh σ) (st : St Ssh ScpFs σ) (dir q : PathBuf) (k : Nat) : Prop where
  entered : k = 0 → (changeDir dir H st).1 = .ok q ∧ (changeDir dir H st).2.self.wrkdir = q
  refused : k ≠ 0 → (∃ e, (changeDir dir H st).1 = .err e) ∧ (changeDir dir H st).2.self.wrkdir = st.self.wrkdir

theorem self_of_checkConnection (h : checkConnection H st = (.ok (), st₁)) : st₁.self = st.self := by
  have hself := checkConnection_self (H := H) st
  rwa [h] at hself

/-- What `change_dir` makes of an answer. -/
theorem changeDir_of_answer {session : SshSession} (hs : st.self.session = some session)
    (hc : checkConnection H st = (.ok (), st₁))
    (h : performShellCmd session (ShellCmd.changeDir (absolutize st.self.wrkdir dir)).text H st₁ =
      (.ok (decimal k ++ '\n' :: (q ++ ['\n'])), st₂)) :
    changeDir dir H st =
      if k = 0 then (.ok (trim q), { st₂ with self := { st₂.self with wrkdir := trim q } })
      else (.err (.newEx .noSuchFileOrDirectory (quoted (absolutize st.self.wrkdir dir))), st₂) := by
  have hself := self_of_checkConnection hc
  unfold changeDir
  rw [bind_ok hc, bind_ok self_run, bind_ok self_run, hself, hs, bind_ok (unwrap_run session), bind_ok (attempt_ok h)]
  dsimp only
  by_cases hk : k = 0
  · subst hk
    obtain ⟨t, b, hsplit, hb, htrim⟩ := trim_answer 0 (q ++ ['\n'])
    have hcut : sliceFrom (decimal 0 ++ t) 1 = some t := sliceFrom_eq_some.2 ⟨decimal 0, rfl, rfl⟩
    have hhead : (decimal 0 ++ t).head? = some '0' := rfl
    have hq : trim t = trim q := by
      rw [changeDir_answer (by rw [htrim]; exact hhead) (by rw [htrim]; exact hcut), trim_append_blank newline_blank]
    rw [htrim, if_pos hhead, if_pos rfl, hcut, Out.unwrapSlice_some, bind_ok (ofOut_run _), hq]
    rfl
  · rw [if_neg hk, if_neg fun h0 => hk (answer_zero h0)]
    rfl

/-- **The directory that `pwd` reports is stored as it is exactly when it does not end in white space.** -/
theorem changeDir_stores_iff {session : SshSession} (hs : st.self.session = some session)
    (hc : checkConnection H st = (.ok (), st₁)) (habs : isAbsolute q = true)
    (h : performShellCmd session (ShellCmd.changeDir (absolutize st.self.wrkdir dir)).text H st₁ =
      (.ok (decimal k ++ '\n' :: (q ++ ['\n'])), st₂)) :
    Stores H st dir q k ↔ (k = 0 → ∀ c, q.getLast? = some c → isWhite c = false) := by
  have hrun := changeDir_of_answer hs hc h
  rw [← trim_absolute_iff habs]
  constructor
  · intro hstores hk
    have hok := (hstores.entered hk).1
    rw [hrun, if_pos hk] at hok
    exact Out.ok.inj hok
  · intro htrim
    refine ⟨fun hk => ?_, fun hk => ?_⟩
    · rw [hrun, if_pos hk, htrim hk]
      exact ⟨rfl, rfl⟩
    · rw [hrun, if_neg hk, (performShellCmd_ok h).1, self_of_checkConnection hc]
      exact ⟨⟨_, rfl⟩, rfl⟩

end

/-- A client of a server that answers every command with `reply`. -/
def answered (reply : Str) : Handler Ssh Str × St Ssh ScpFs Str :=
  (shellServer fun _ => reply, ⟨⟨some ⟨0⟩, ['/'], SshOpts.new "h".toList⟩, [], []⟩)

theorem changeDir_stores_plain :
    Stores (answered "0\n/srv\n".toList).1 (answered "0\n/srv\n".toList).2 "srv".toList "/srv".toList 0 :=
  (changeDir_stores_iff rfl rfl rfl rfl).2 fun _ c hc => by
    cases hc
    decide

/-- The blank at the end of the name is lost. -/
theorem changeDir_loses_blank :
    (changeDir "srv ".toList (answered "0\n/srv \n".toList).1 (answered "0\n/srv \n".toList).2).1 = .ok "/srv".toList ∧
      ¬ Stores (answered "0\n/srv \n".toList).1 (answered "0\n/srv \n".toList).2 "srv ".toList "/srv ".toList 0 := by
  have hrun : (changeDir "srv ".toList (answered "0\n/srv \n".toList).1 (answered "0\n/srv \n".toList).2).1 =
      .ok "/srv".toList := by decide +kernel
  refine ⟨hrun, fun h => ?_⟩
  have hok := (h.entered rfl).1
  rw [hrun] at hok
  revert hok
  decide

end ScpFs

/-! ## A tree where every path is a directory -/

def openMachine : Sh.Machine Unit where
  home := ['/']
  enter _ _ dir := if isAbsolute dir then some (logical dir) else none
  utility _ _ _ := ([], 0, ())

theorem openMachine_logical : LogicalCd openMachine := by
  intro w cwd dir d habs henter
  unfold openMachine at henter
  dsimp only at henter
  rw [habs, if_pos rfl] at henter
  exact (Option.some.inj henter).symm

def openServer : Handler Ssh (Unit × Str) :=
  site openMachine (fun _ _ => .ok ⟨none, none, none, some 0o040755, none, none⟩) fun w _ _ => w

def clientsAt (wrkdir : PathBuf) : St Ssh ScpFs (Unit × Str) × St Ssh SftpFs (Unit × Str) :=
  (⟨⟨some ⟨0⟩, wrkdir, SshOpts.new "h".toList⟩, ((), []), []⟩,
    ⟨⟨some ⟨0⟩, some ⟨0⟩, wrkdir, SshOpts.new "h".toList⟩, ((), []), []⟩)

/-- The clients after one call. -/
def changed (dir : PathBuf) (s : St Ssh ScpFs (Unit × Str) × St Ssh SftpFs (Unit × Str)) :
    St Ssh ScpFs (Unit × Str) × St Ssh SftpFs (Unit × Str) :=
  ((ScpFs.changeDir dir openServer s.1).2, (SftpFs.changeDir dir openServer s.2).2)

theorem pwd_agree_of_run_down : PwdAgree openServer openServer (changed "b".toList (clientsAt "/a".toList)) := by
  have hfollows : Follows "/a".toList "b".toList := by
    refine ⟨by decide, by decide, fun n hn c hc => ?_⟩
    have hb : fileName (absolutize "/a".toList "b".toList) = some ['b'] := by decide
    rw [hb] at hn
    cases hn
    cases hc
    decide
  have h₁ : (ScpFs.changeDir "b".toList openServer (clientsAt "/a".toList).1).1 = .ok "/a/b".toList := by decide +kernel
  have h₂ : (SftpFs.changeDir "b".toList openServer (clientsAt "/a".toList).2).1 =
    .ok "/a/b".toList := by decide +kernel
  have hstart : InStep (clientsAt "/a".toList) := ⟨rfl, rfl, rfl⟩
  exact pwd_agree_of_run (site_hosts openMachine _ _) openMachine_logical hstart
    (.cons hfollows (Prod.ext h₁ rfl) (Prod.ext h₂ rfl) (.nil _))

/-- One step up from `/a`: one client is at `/`, the other at `/a/..`. -/
theorem pwd_disagree_up :
    BothChange openServer openServer (fun _ _ => True) ["..".toList] (clientsAt "/a".toList)
        (changed "..".toList (clientsAt "/a".toList)) ∧
      ¬ PwdAgree openServer openServer (changed "..".toList (clientsAt "/a".toList)) := by
  have h₁ : (ScpFs.changeDir "..".toList openServer (clientsAt "/a".toList).1).1 = .ok "/".toList := by decide +kernel
  have h₂ : (SftpFs.changeDir "..".toList openServer (clientsAt "/a".toList).2).1 = .ok "/a/..".toList := by
    decide +kernel
  refine ⟨.cons trivial (Prod.ext h₁ rfl) (Prod.ext h₂ rfl) (.nil _), fun h => ?_⟩
  have hp₁ : (ScpFs.pwd openServer (changed "..".toList (clientsAt "/a".toList)).1).1 = .ok "/".toList := by
    decide +kernel
  have hp₂ : (SftpFs.pwd openServer (changed "..".toList (clientsAt "/a".toList)).2).1 = .ok "/a/..".toList := by
    decide +kernel
  exact absurd (h _ _ _ _ (Prod.ext hp₁ rfl) (Prod.ext hp₂ rfl)) (by decide)

end RemotefsSsh
