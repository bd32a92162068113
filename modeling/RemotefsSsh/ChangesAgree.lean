import RemotefsSsh.Changes
import RemotefsSsh.Missing.Sftp

/-!
# The two clients on one tree (ssh/scp.rs:366-491, ssh/sftp.rs:268-326)

A server grants a change or refuses it, whether a utility asks for it or a request (`Grants`), and loses no answer.
`ScpFs` looks for the path before it removes anything, and does not find a link that leads nowhere; `SftpFs` only asks.
So the clients return the same, one operation after another, exactly when no such link is removed (`changes_agree`).
-/

namespace RemotefsSsh

open Utf8 UnixPath Effect Prog FileTree

/-- The tree after a change, or none when it is refused. -/
abbrev Grants (α : Type) := ChangeKind → Tree Str α → PathBuf → Option (Tree Str α)

/-- What is granted is a change at the entry that the path names. -/
def Grants.Lawful {α : Type} (G : Grants α) : Prop := ∀ kind t p t', G kind t p = some t' →
  ∃ e n, EntryAt t (steps p) e n ∧ Change.Ready t ⟨kind, e ++ [n]⟩ ∧ t' = Change.effect t ⟨kind, e ++ [n]⟩

/-- The utilities on the tree, each with status 0 exactly when its change is granted. -/
structure ShellGrants {ω α : Type} (M : Sh.Machine ω) (files : ω → Tree Str α) (G : Grants α) : Prop where
  existsPath_silent : ∀ w p, (M.utility w M.home (ShellCmd.existsPath p).words).1 = []
  existsPath_same : ∀ w p, (M.utility w M.home (ShellCmd.existsPath p).words).2.2 = w
  existsPath : ∀ w p, isAbsolute p = true → ((M.utility w M.home
    (ShellCmd.existsPath p).words).2.1 = 0 ↔ Leads (files w) p)
  silent : ∀ c x w, ShellCmd.change? c = some x → (M.utility w M.home c.words).1 = []
  changes : ∀ c kind p w, ShellCmd.change? c = some (kind, p) → isAbsolute p = true →
    (kind = .unlink ∨ kind = .prune → Leads (files w) p) →
    ((M.utility w M.home c.words).2.1 = 0 ↔ (G kind (files w) p).isSome = true) ∧
      files (M.utility w M.home c.words).2.2 = (G kind (files w) p).getD (files w)

/-- The requests on the tree. -/
structure RequestGrants {σ α : Type} (files : σ → Tree Str α) (H : Handler Ssh σ) (G : Grants α) : Prop where
  up : ∀ s env, (H.reply (.authenticated s) env).1 = true
  idle : ∀ c env, Idle c → files (H.reply c env).2 = files env
  stat : ∀ f p env, isAbsolute p = true → ((H.reply (.stat f p) env).1.isOk = true ↔ Leads (files env) p)
  mkdir : ∀ f p mode env, isAbsolute p = true →
    (H.reply (.mkdir f p mode) env).1.isOk = (G .mkdir (files env) p).isSome ∧
      files (H.reply (.mkdir f p mode) env).2 = (G .mkdir (files env) p).getD (files env)
  unlink : ∀ f p env, isAbsolute p = true →
    (H.reply (.unlink f p) env).1.isOk = (G .unlink (files env) p).isSome ∧
      files (H.reply (.unlink f p) env).2 = (G .unlink (files env) p).getD (files env)
  rmdir : ∀ f p env, isAbsolute p = true →
    (H.reply (.rmdir f p) env).1.isOk = (G .rmdir (files env) p).isSome ∧
      files (H.reply (.rmdir f p) env).2 = (G .rmdir (files env) p).getD (files env)

/-! ## What each client answers -/

section
variable {α : Type} (G : Grants α) (wd : PathBuf)

/-- Whether an operation returns, and the tree after it. -/
abbrev Answer (α : Type) := Tree Str α → Ask → Bool × Tree Str α

def granted (kind : ChangeKind) (t : Tree Str α) (p : PathBuf) : Bool × Tree Str α :=
  ((G kind t p).isSome, (G kind t p).getD t)

open Classical in
/-- A directory is made where nothing was found, anything else is done to what was found. -/
noncomputable def scpAnswer : Answer α := fun t a =>
  match a.kind with
  | none => (true, t)
  | some kind =>
    if kind = .mkdir ↔ Leads t (absolutize wd a.path) then (false, t) else granted G kind t (absolutize wd a.path)

open Classical in
/-- Only a directory that is to be made is looked for. -/
noncomputable def sftpAnswer : Answer α := fun t a =>
  match a.kind with
  | none => (true, t)
  | some kind =>
    if kind = .mkdir ∧ Leads t (absolutize wd a.path) then (false, t) else granted G kind t (absolutize wd a.path)

def answers (A : Answer α) : Tree Str α → List Ask → List Bool
  | _, [] => []
  | t, a :: as => (A t a).1 :: answers A (A t a).2 as

def treeAfter (A : Answer α) (t : Tree Str α) (as : List Ask) : Tree Str α := as.foldl (fun t a => (A t a).2) t

/-- Whatever is to be removed as a file, and would be, leads somewhere. -/
def NoDangling : Tree Str α → List Ask → Prop
  | _, [] => True
  | t, a :: as =>
    (a.kind = some .unlink → (G .unlink t (absolutize wd a.path)).isSome = true → Leads t (absolutize wd a.path)) ∧
      NoDangling (sftpAnswer G wd t a).2 as

variable {G} {t : Tree Str α}

/-- A directory that can be removed leads somewhere. -/
theorem Grants.Lawful.rmdir_leads (hG : G.Lawful) {p : PathBuf} (h : (G .rmdir t p).isSome = true) : Leads t p := by
  obtain ⟨t', ht'⟩ := Option.isSome_iff_exists.1 h
  obtain ⟨e, n, ⟨c, slash, hlast, hc, he⟩, hready, -⟩ := hG _ _ _ _ ht'
  exact ⟨e ++ [n], hc.last hlast he hready.2.1, by rw [hready.2.1]; simp⟩

/-- One operation: the answers are the same, and the trees, unless a link that leads nowhere is removed. -/
theorem answer_eq_iff (hG : G.Lawful) (a : Ask) (hprune : a.kind ≠ some .prune) :
    ((scpAnswer G wd t a).1 = (sftpAnswer G wd t a).1 ↔
      (a.kind = some .unlink → (G .unlink t (absolutize wd a.path)).isSome = true → Leads t (absolutize wd a.path))) ∧
    ((scpAnswer G wd t a).1 = (sftpAnswer G wd t a).1 → scpAnswer G wd t a = sftpAnswer G wd t a) := by
  obtain ⟨kind, path⟩ := a
  -- a change that is refused is one that is not looked at
  have hrefused : ∀ k : ChangeKind, (G k t (absolutize wd path)).isSome = false →
      granted G k t (absolutize wd path) = (false, t) := by
    intro k h
    have hnone : G k t (absolutize wd path) = none := Option.isSome_eq_false_iff.1 h |> Option.isNone_iff_eq_none.1
    simp only [granted, hnone, Option.isSome_none, Option.getD_none]
  cases kind with
  | none => exact ⟨iff_of_true rfl fun h => (by cases h), fun _ => rfl⟩
  | some kind =>
    by_cases hleads : Leads t (absolutize wd path)
    · have hsame : scpAnswer G wd t ⟨some kind, path⟩ = sftpAnswer G wd t ⟨some kind, path⟩ := by
        simp only [scpAnswer, sftpAnswer, hleads, iff_true, and_true]
      exact ⟨iff_of_true (by rw [hsame]) fun _ _ => hleads, fun _ => hsame⟩
    · have hsftp : sftpAnswer G wd t ⟨some kind, path⟩ = granted G kind t (absolutize wd path) := by
        simp only [sftpAnswer, hleads, and_false, if_false]
      cases kind with
      | prune => exact absurd rfl hprune
      | mkdir =>
        have hscp : scpAnswer G wd t ⟨some .mkdir, path⟩ = granted G .mkdir t (absolutize wd path) := by
          simp only [scpAnswer, hleads, true_iff, if_false]
        rw [hscp, hsftp]
        exact ⟨iff_of_true rfl fun h => (by cases h), fun _ => rfl⟩
      | rmdir =>
        have hscp : scpAnswer G wd t ⟨some .rmdir, path⟩ = (false, t) := by
          simp only [scpAnswer, hleads, reduceCtorEq, if_true]
        have hno : (G .rmdir t (absolutize wd path)).isSome = false := by
          by_contra h
          exact hleads (hG.rmdir_leads (Bool.not_eq_false _ ▸ h))
        rw [hscp, hsftp, hrefused _ hno]
        exact ⟨iff_of_true rfl fun h => (by cases h), fun _ => rfl⟩
      | unlink =>
        have hscp : scpAnswer G wd t ⟨some .unlink, path⟩ = (false, t) := by
          simp only [scpAnswer, hleads, reduceCtorEq, if_true]
        rw [hscp, hsftp]
        cases hsome : (G .unlink t (absolutize wd path)).isSome with
        | false =>
          rw [hrefused _ hsome]
          exact ⟨iff_of_true rfl fun _ h => (by cases h), fun _ => rfl⟩
        | true =>
          have hgranted : (granted G .unlink t (absolutize wd path)).1 = true := hsome
          rw [hgranted]
          refine ⟨iff_of_false (by simp) fun h => hleads (h rfl rfl), fun h => by cases h⟩

/-- **The clients answer the same exactly when no link that leads nowhere is removed**, and then leave the same tree. -/
theorem answers_eq_iff (hG : G.Lawful) {as : List Ask} (hprune : ∀ a ∈ as, a.kind ≠ some .prune) :
    (answers (scpAnswer G wd) t as = answers (sftpAnswer G wd) t as ↔ NoDangling G wd t as) ∧
    (NoDangling G wd t as → treeAfter (scpAnswer G wd) t as = treeAfter (sftpAnswer G wd) t as) := by
  induction as generalizing t with
  | nil => exact ⟨iff_of_true rfl trivial, fun _ => rfl⟩
  | cons a as ih =>
    obtain ⟨hone, hsame⟩ := answer_eq_iff (t := t) wd hG a (hprune a List.mem_cons_self)
    obtain ⟨hrest, htree⟩ := ih (t := (sftpAnswer G wd t a).2) fun a' h => hprune a' (List.mem_cons_of_mem a h)
    constructor
    · constructor
      · intro h
        obtain ⟨hhead, htail⟩ := List.cons.inj h
        rw [hsame hhead] at htail
        exact ⟨hone.1 hhead, hrest.1 htail⟩
      · rintro ⟨hstep, hno⟩
        have heq := hsame (hone.2 hstep)
        show (scpAnswer G wd t a).1 :: _ = (sftpAnswer G wd t a).1 :: _
        rw [heq, hrest.2 hno]
    · rintro ⟨hstep, hno⟩
      have heq := hsame (hone.2 hstep)
      show treeAfter (scpAnswer G wd) (scpAnswer G wd t a).2 as = _
      rw [heq]
      exact htree hno

end

/-! ## The clients give these answers -/

/-- It returns exactly when the answer says so, leaves the tree that goes with it, and the record as it is. -/
def Gives {κ σ α : Type} (H : Handler Ssh σ) (T : σ → Tree Str α) (k : κ) (m : Remote κ σ Unit) (st : St Ssh κ σ)
    (answer : Bool × Tree Str α) : Prop :=
  (m H st).2.self = k ∧ ((m H st).1.isOk, T (m H st).2.env) = answer

/-- Operations that each give the answer `A` give its answers. -/
theorem told_answers {κ σ ι α : Type} {H : Handler Ssh σ} (run : ι → Remote κ σ Unit)
    (ask : ι → Ask) (T : σ → Tree Str α)
    (A : Answer α) {k : κ} {ops : List ι} (hops : ∀ op ∈ ops, ∀ st, st.self = k →
      Gives H T k (run op) st (A (T st.env) (ask op)))
    {st : St Ssh κ σ} (hk : st.self = k) :
    (told H run ask ops st).map Prod.snd = answers A (T st.env) (ops.map ask) ∧
      T (runAll H run ops st).env = treeAfter A (T st.env) (ops.map ask) := by
  induction ops generalizing st with
  | nil => exact ⟨rfl, rfl⟩
  | cons op ops ih =>
    obtain ⟨hself, hanswer⟩ := hops op List.mem_cons_self st hk
    obtain ⟨htold, htree⟩ := ih (fun op' h => hops op' (List.mem_cons_of_mem op h)) hself
    have hfst : (run op H st).1.isOk = (A (T st.env) (ask op)).1 := congrArg Prod.fst hanswer
    have hsnd : T (run op H st).2.env = (A (T st.env) (ask op)).2 := congrArg Prod.snd hanswer
    rw [hsnd] at htold htree
    refine ⟨?_, htree⟩
    show (run op H st).1.isOk :: _ = (A (T st.env) (ask op)).1 :: _
    rw [hfst]
    exact congrArg _ htold

namespace ScpFs

section
variable {σ ω α : Type} {M : Sh.Machine ω} {world : σ → ω} {files : ω → Tree Str α} {H : Handler Ssh σ} {G : Grants α}
  {k : ScpFs} {w : ω} {session : SshSession} {st : St Ssh ScpFs σ}

theorem rc_answers (session : SshSession) (hH : Serves M world H) {c : ShellCmd} (hc : c.Calls M)
    (h : Here world k w st) :
    ∃ out st', performShellCmdWithRc session c.text H st = (.ok ((M.utility w M.home c.words).2.1.toUInt32, out), st') ∧
      Here world k (M.utility w M.home c.words).2.2 st' := by
  obtain ⟨⟨rc, out⟩, st', hr⟩ := hH.rc hc session st
  obtain ⟨hcode, hworld⟩ := hH.toHosts.rc hc hr
  rw [h.world] at hcode hworld
  exact ⟨out, st', by rw [hr, hcode], (performShellCmdWithRc_self hr).trans h.self, hworld⟩

variable (hs : k.session = some session)
include hs

theorem checkConnection_answers (hH : Serves M world H) (h : Here world k w st) :
    ∃ st', checkConnection H st = (.ok (), st') ∧ Here world k w st' := by
  have hsession : st.self.session = some session := by rw [h.self, hs]
  obtain ⟨st', hr⟩ := checkConnection_serves hH hsession
  obtain ⟨hself, hworld, -⟩ := checkConnection_looks hH.toHosts hr
  exact ⟨st', hr, hself.trans h.self, hworld.trans h.world⟩

theorem runRc_answers (hH : Serves M world H) {c : ShellCmd} (hc : c.Calls M) (bad : RemoteError)
    (kind : RemoteErrorType)
    (h : Here world k w st) : ∃ st', runRc c bad kind H st =
        (if (M.utility w M.home c.words).2.1 = 0 then .ok () else .err bad, st') ∧
      Here world k (M.utility w M.home c.words).2.2 st' := by
  obtain ⟨out, st', hr, hhere⟩ := rc_answers session hH hc h
  refine ⟨st', ?_, hhere⟩
  unfold runRc
  rw [bind_ok self_run, h.self, hs, bind_ok (unwrap_run session), bind_ok (attempt_ok hr)]
  dsimp only
  by_cases hcode : (M.utility w M.home c.words).2.1 = 0
  · rw [if_pos hcode, if_pos (toUInt32_eq_zero_iff.2 hcode)]
    rfl
  · rw [if_neg hcode, if_neg fun h => hcode (toUInt32_eq_zero_iff.1 h)]
    rfl

variable (hH : Serves M world H) (hM : ShellGrants M files G) {path : PathBuf} (hw : isAbsolute k.wrkdir = true)
  (hp : Sh.Plain (absolutize k.wrkdir path))
include hH hM hw hp

open Classical in
theorem existsPath_answers (h : Here world k w st) :
    ∃ st', existsPath path H st = (.ok (decide (Leads (files w) (absolutize k.wrkdir path))), st') ∧
      Here world k w st' := by
  obtain ⟨st₁, h₁, hhere⟩ := checkConnection_answers hs hH h
  have hc : (ShellCmd.existsPath (absolutize k.wrkdir path)).Calls M :=
    ShellCmd.calls rfl trivial (ShellCmd.plain_one hp) fun w => hM.existsPath_silent w _
  obtain ⟨out, st₂, h₂, hhere₂⟩ := rc_answers session hH hc hhere
  rw [hM.existsPath_same] at hhere₂
  refine ⟨st₂, ?_, hhere₂⟩
  unfold existsPath runTest
  rw [bind_ok h₁, bind_ok self_run, hhere.self, bind_ok self_run, hhere.self, hs, bind_ok (unwrap_run session),
    bind_ok (attempt_ok h₂)]
  have hiff : (M.utility w M.home (ShellCmd.existsPath (absolutize k.wrkdir path)).words).2.1.toUInt32 = 0 ↔
      Leads (files w) (absolutize k.wrkdir path) :=
    toUInt32_eq_zero_iff.trans (hM.existsPath w _ (isAbsolute_absolutize hw path))
  exact Prod.ext (congrArg Out.ok (decide_eq_decide.2 hiff)) rfl

open Classical in
theorem existsOrFalse_answers (h : Here world k w st) :
    ∃ st', existsOrFalse (absolutize k.wrkdir path) H st =
      (.ok (decide (Leads (files w) (absolutize k.wrkdir path))), st') ∧
      Here world k w st' := by
  have habs := absolutize_absolutize (isAbsolute_absolutize hw path)
  obtain ⟨st', hr, hhere⟩ := existsPath_answers hs hH hM hw (by rwa [habs]) h
  rw [habs] at hr
  exact ⟨st', by rw [existsOrFalse, bind_ok (attempt_ok hr)]; rfl, hhere⟩

/-- A command behind the test, which is run when the test finds nothing for `mkdir`, and something for the others. -/
theorem guarded_answers {c : ShellCmd} {kind : ChangeKind} (hchange : c.change? = some (kind, absolutize k.wrkdir path))
    (hcalls : c.Calls M) {bad err : RemoteError} {m : PathBuf → Bool → Remote ScpFs σ Unit}
    (hm : ∀ b, m (absolutize k.wrkdir path) b = if b = !decide
      (kind = .mkdir) then runRc c bad .protocolError else throw err)
    (h : Here world k w st) :
    Gives H (fun env => files (world env)) k
      (checkConnection >>= fun _ => Prog.self >>= fun fs => existsOrFalse (absolutize fs.wrkdir path) >>=
        m (absolutize fs.wrkdir path)) st
      (scpAnswer G k.wrkdir (files w) ⟨some kind, path⟩) := by
  classical
  obtain ⟨st₁, h₁, hhere₁⟩ := checkConnection_answers hs hH h
  obtain ⟨st₂, h₂, hhere₂⟩ := existsOrFalse_answers hs hH hM hw hp hhere₁
  unfold Gives
  rw [bind_ok h₁, bind_ok self_run, hhere₁.self, bind_ok h₂, hm]
  by_cases hgone : kind = .mkdir ↔ Leads (files w) (absolutize k.wrkdir path)
  · -- what is to be made is there, or what is to be taken away is not
    have hfound : ¬ decide (Leads (files w) (absolutize k.wrkdir path)) = !decide (kind = .mkdir) := by
      by_cases hl : Leads (files w) (absolutize k.wrkdir path)
      · simp [hl, hgone.2 hl]
      · simp [hl, mt hgone.1 hl]
    have hanswer : scpAnswer G k.wrkdir (files w) ⟨some kind, path⟩ = (false, files w) := by
      simp only [scpAnswer, hgone, if_true]
    rw [if_neg hfound, hanswer]
    exact ⟨hhere₂.self, by rw [← hhere₂.world]; rfl⟩
  · have hfound : decide (Leads (files w) (absolutize k.wrkdir path)) = !decide (kind = .mkdir) := by
      rw [← decide_not]
      refine decide_eq_decide.2 ?_
      by_cases hl : Leads (files w) (absolutize k.wrkdir path)
      · exact iff_of_true hl fun hk => hgone (iff_of_true hk hl)
      · exact iff_of_false hl fun hk => hgone (iff_of_false hk hl)
    have hanswer : scpAnswer G k.wrkdir (files w) ⟨some kind, path⟩ = granted G kind (files w)
      (absolutize k.wrkdir path) := by
      simp only [scpAnswer, hgone, if_false]
    obtain ⟨st₃, h₃, hhere₃⟩ := runRc_answers hs hH hcalls bad .protocolError hhere₂
    obtain ⟨hcode, hfiles⟩ := hM.changes c kind _ w hchange (isAbsolute_absolutize hw path) fun hk => by
      by_contra hl
      exact hgone (iff_of_false (by rcases hk with rfl | rfl <;> simp) hl)
    rw [if_pos hfound, h₃, hanswer]
    refine ⟨hhere₃.self, Prod.ext ?_ ?_⟩
    · show (if _ then Out.ok () else Out.err bad).isOk = (G kind (files w) (absolutize k.wrkdir path)).isSome
      by_cases hzero : (M.utility w M.home c.words).2.1 = 0
      · rw [if_pos hzero, hcode.1 hzero]
        rfl
      · rw [if_neg hzero, Bool.eq_false_iff.2 fun h => hzero (hcode.2 h)]
        rfl
    · show files (world st₃.env) = _
      rw [hhere₃.world, hfiles]
      rfl

/-- **Every directory operation of the SCP client gives its answer.** -/
theorem run_answers (L : Libs) {op : ScpTreeOp} (hpath : op.ask.path = path) (h : Here world k w st) :
    Gives H (fun env => files (world env)) k (op.1.run L) st (scpAnswer G k.wrkdir (files w) op.ask) := by
  classical
  obtain ⟨op, hop⟩ := op
  have hcalls : ∀ {c : ShellCmd}, c.withRc = true → c.AroundPaths → c.paths = [absolutize k.wrkdir path] →
      (∃ x, c.change? = some x) → c.Calls M := by
    rintro c hrc haround hpaths ⟨x, hx⟩
    refine ShellCmd.calls hrc haround (fun q hq => ?_) fun w => hM.silent _ _ w hx
    rw [hpaths] at hq
    exact ShellCmd.plain_one hp q hq
  cases op with
  | existsPath p =>
    obtain rfl : p = path := hpath
    obtain ⟨st', hr, hhere⟩ := existsPath_answers hs hH hM hw hp h
    show Gives H _ k (existsPath p >>= fun _ => Pure.pure ()) st _
    unfold Gives
    rw [bind_ok hr]
    exact ⟨hhere.self, Prod.ext rfl (congrArg files hhere.world)⟩
  | createDir p mode =>
    obtain rfl : p = path := hpath
    exact guarded_answers hs hH hM hw hp (m := fun path b => if b then throw (.new .directoryAlreadyExists)
        else runRc (.createDir mode.toU32 path) (.new .fileCreateDenied) .protocolError)
      (c := .createDir mode.toU32 (absolutize k.wrkdir p)) rfl (hcalls rfl trivial rfl ⟨_, rfl⟩)
        (fun b => by cases b <;> rfl) h
  | removeFile p =>
    obtain rfl : p = path := hpath
    exact guarded_answers hs hH hM hw hp (m := fun path b => if b then
        runRc (.removeFile path) (.new .couldNotRemoveFile) .protocolError else throw (.new .noSuchFileOrDirectory))
      (c := .removeFile (absolutize k.wrkdir p)) rfl (hcalls rfl trivial rfl ⟨_, rfl⟩) (fun b => by cases b <;> rfl) h
  | removeDir p =>
    obtain rfl : p = path := hpath
    exact guarded_answers hs hH hM hw hp (m := fun path b => if b then
        runRc (.removeDir path) (.new .directoryNotEmpty) .protocolError else throw (.new .noSuchFileOrDirectory))
      (c := .removeDir (absolutize k.wrkdir p)) rfl (hcalls rfl trivial rfl ⟨_, rfl⟩) (fun b => by cases b <;> rfl) h
  | removeDirAll p =>
    obtain rfl : p = path := hpath
    exact guarded_answers hs hH hM hw hp (m := fun path b => if b then
        runRc (.removeDirAll path) (.new .couldNotRemoveFile) .protocolError else throw (.new .noSuchFileOrDirectory))
      (c := .removeDirAll (absolutize k.wrkdir p)) rfl (hcalls rfl trivial rfl ⟨_, rfl⟩) (fun b => by cases b <;> rfl) h
  | _ => cases hop

end

end ScpFs

namespace SftpFs

section
variable {σ α : Type} {files : σ → Tree Str α} {H : Handler Ssh σ} {G : Grants α} {k : SftpFs} {t : Tree Str α}
  {session : SshSession} {sftp : SshSftp} {st : St Ssh SftpFs σ} {path : PathBuf}
  (hS : RequestGrants files H G)
include hS

theorem idle_answers {R : Type} {m : Remote SftpFs σ R} (hm : Only Idle m) (h : Here files k t st) :
    Here files k t (m H st).2 :=
  Triple.ends (hm.triple fun c hc st h => ⟨h.self, (hS.idle c st.env hc).trans h.world⟩) h

theorem checkConnection_answers (hs : k.session = some session) (h : Here files k t st) :
    ∃ st', checkConnection H st = (.ok (), st') ∧ Here files k t st' := by
  refine ⟨(checkConnection H st).2, Prod.ext ?_ rfl, idle_answers hS checkConnection_only h⟩
  unfold checkConnection isConnected
  rw [bind_run, bind_ok self_run, h.self, hs]
  dsimp only
  rw [ask_run, hS.up]
  rfl

variable (hf : k.sftp = some sftp)
include hf

omit hS in
theorem withSftp_eq {R : Type} {op : SshSftp → PathBuf → Remote SftpFs σ R} (h : Here files k t st) :
    withSftp path op H st = op sftp (absolutize k.wrkdir path) H st := by
  unfold withSftp
  rw [bind_ok self_run, h.self, hf]
  dsimp only
  rw [bind_ok self_run, h.self]

variable (hw : isAbsolute k.wrkdir = true)
include hw

open Classical in
theorem existsPath_answers (path : PathBuf) (h : Here files k t st) :
    ∃ st', existsPath path H st = (.ok (decide (Leads t (absolutize k.wrkdir path))), st') ∧ Here files k t st' := by
  refine ⟨(existsPath path H st).2, Prod.ext ?_ rfl, idle_answers hS (existsPath_only path) h⟩
  have hstat := hS.stat sftp _ st.env (isAbsolute_absolutize hw path)
  rw [h.world] at hstat
  rcases existsPath_tells (H := H) path st with ⟨hnone, -⟩ | ⟨p, hp, hr⟩
  · rw [asked, h.self, hf] at hnone
    cases hnone
  · rw [asked, h.self, hf] at hp
    rw [hr, ← List.cons.inj hp |>.1]
    refine congrArg Out.ok (decide_eq_decide.2 (Iff.trans ?_ hstat))
    cases (H.reply (.stat sftp (absolutize k.wrkdir path)) st.env).1 with
    | ok _ => exact iff_of_true rfl rfl
    | error e => exact iff_of_false (statAnswer_error e) (by simp [Except.isOk, Except.toBool])

end

section
variable {σ : Type} {H : Handler Ssh σ} {st st' : St Ssh SftpFs σ}

/-- An operation that ends with a request returns when the request is granted. -/
theorem orKind_answers {m : Remote SftpFs σ (Except SshError Unit)} {r : Except SshError Unit} (kind : RemoteErrorType)
    (h : m H st = (.ok r, st')) : (orKind kind m H st).1.isOk = r.isOk ∧ (orKind kind m H st).2 = st' := by
  unfold orKind
  rw [bind_ok h]
  cases r with
  | ok _ => exact ⟨rfl, rfl⟩
  | error _ => exact ⟨rfl, rfl⟩

end

section
variable {σ α : Type} {files : σ → Tree Str α} {H : Handler Ssh σ} {G : Grants α} {k : SftpFs} {t : Tree Str α}
  {session : SshSession} {sftp : SshSftp} {st : St Ssh SftpFs σ} {path : PathBuf}
  (hS : RequestGrants files H G) (hs : k.session = some session) (hf : k.sftp = some sftp)
  (hw : isAbsolute k.wrkdir = true)
include hS hf hw

omit hS hw in
/-- A removal is what its request is. -/
theorem request_answers {kind : ChangeKind} (hkind : kind ≠ .mkdir) {ekind : RemoteErrorType}
    {m : SshSftp → PathBuf → Remote SftpFs σ (Except SshError Unit)} {r : Except SshError Unit} {env : σ}
    (hm : ∃ log, m sftp (absolutize k.wrkdir path) H st = (.ok r, ⟨st.self, env, log⟩))
    (hr : r.isOk = (G kind t (absolutize k.wrkdir path)).isSome ∧
      files env = (G kind t (absolutize k.wrkdir path)).getD t)
    (h : Here files k t st) :
    Gives H files k (withSftp path fun f p => orKind ekind (m f p)) st (sftpAnswer G k.wrkdir t ⟨some kind, path⟩) := by
  obtain ⟨log, hm⟩ := hm
  obtain ⟨hok, hst⟩ := orKind_answers ekind hm
  have hanswer : sftpAnswer G k.wrkdir t ⟨some kind, path⟩ = granted G kind t (absolutize k.wrkdir path) := by
    simp only [sftpAnswer, hkind, false_and, if_false]
  unfold Gives
  rw [withSftp_eq hf h, hanswer, hst, hok]
  exact ⟨h.self, Prod.ext hr.1 hr.2⟩

include hs in
/-- **Every directory operation of the SFTP client gives its answer.** -/
theorem run_answers {op : SftpTreeOp} (h : Here files k t st) :
    Gives H files k op.1.run st (sftpAnswer G k.wrkdir t op.ask) := by
  classical
  obtain ⟨op, hop⟩ := op
  cases op with
  | existsPath p =>
    obtain ⟨st', hr, hhere⟩ := existsPath_answers hS hf hw p h
    show Gives H _ k (existsPath p >>= fun _ => Pure.pure ()) st _
    unfold Gives
    rw [bind_ok hr]
    exact ⟨hhere.self, Prod.ext rfl hhere.world⟩
  | createDir p mode =>
    have habs := isAbsolute_absolutize hw p
    obtain ⟨st₁, h₁, hhere₁⟩ := checkConnection_answers hS hs h
    obtain ⟨st₂, h₂, hhere₂⟩ := existsPath_answers hS hf hw (absolutize k.wrkdir p) hhere₁
    rw [absolutize_absolutize habs] at h₂
    show Gives H _ k (createDir p mode) st (sftpAnswer G k.wrkdir t ⟨some .mkdir, p⟩)
    unfold Gives createDir
    rw [bind_ok h₁, bind_ok self_run, hhere₁.self, bind_ok h₂]
    by_cases hl : Leads t (absolutize k.wrkdir p)
    · have hanswer : sftpAnswer G k.wrkdir t ⟨some .mkdir, p⟩ = (false, t) := by
        simp only [sftpAnswer, hl, and_self, if_true]
      rw [decide_eq_true hl, hanswer]
      exact ⟨hhere₂.self, Prod.ext rfl hhere₂.world⟩
    · have hanswer : sftpAnswer G k.wrkdir t ⟨some .mkdir, p⟩ = granted G .mkdir t (absolutize k.wrkdir p) := by
        simp only [sftpAnswer, hl, and_false, if_false]
      have hgrants := hS.mkdir sftp _ mode.toU32 st₂.env habs
      rw [hhere₂.world] at hgrants
      obtain ⟨hok, hst⟩ := orKind_answers .fileCreateDenied
        (ask_run (H := H) (.mkdir sftp (absolutize k.wrkdir p) mode.toU32) st₂)
      rw [decide_eq_false hl, if_neg Bool.false_ne_true, bind_ok self_run, hhere₂.self, hf, bind_ok (unwrap_run sftp)]
      rw [hst, hok, hanswer]
      exact ⟨hhere₂.self, Prod.ext hgrants.1 hgrants.2⟩
  | removeFile p =>
    have hgrants := hS.unlink sftp _ st.env (isAbsolute_absolutize hw p)
    rw [h.world] at hgrants
    exact request_answers hf (by simp) ⟨_, ask_run (.unlink sftp (absolutize k.wrkdir p)) st⟩ hgrants h
  | removeDir p =>
    have hgrants := hS.rmdir sftp _ st.env (isAbsolute_absolutize hw p)
    rw [h.world] at hgrants
    exact request_answers hf (by simp) ⟨_, ask_run (.rmdir sftp (absolutize k.wrkdir p)) st⟩ hgrants h
  | _ => cases hop

end

end SftpFs

theorem SftpTreeOp.ask_kind (op : SftpTreeOp) : op.ask.kind ≠ some .prune := by
  obtain ⟨op, hop⟩ := op
  cases op with
  | existsPath p => simp [SftpTreeOp.ask, SftpOp.ask?]
  | createDir p mode => simp [SftpTreeOp.ask, SftpOp.ask?]
  | removeFile p => simp [SftpTreeOp.ask, SftpOp.ask?]
  | removeDir p => simp [SftpTreeOp.ask, SftpOp.ask?]
  | _ => cases hop

/-- **Two servers on the same tree that grant the same changes**: whatever list of directory operations the two
clients are given, they return the same, one after another, exactly when no link that leads nowhere is to be removed
as a file. Then the trees are the same at the end. -/
theorem changes_agree {σ₁ σ₂ ω α : Type} {M : Sh.Machine ω} {world : σ₁ → ω} {files₁ : ω → Tree Str α}
    {files₂ : σ₂ → Tree Str α}
    {H₁ : Handler Ssh σ₁} {H₂ : Handler Ssh σ₂} {G : Grants α} (hG : G.Lawful) (hH : Serves M world H₁)
    (hM : ShellGrants M files₁ G) (hS : RequestGrants files₂ H₂ G) (L : Libs) (st₁ : St Ssh ScpFs σ₁)
    (st₂ : St Ssh SftpFs σ₂)
    {session₁ session₂ : SshSession} {sftp : SshSftp} (hs₁ : st₁.self.session = some session₁)
    (hs₂ : st₂.self.session = some session₂) (hf : st₂.self.sftp = some sftp) (hwd : st₂.self.wrkdir = st₁.self.wrkdir)
    (hw : isAbsolute st₁.self.wrkdir = true) (htree : files₂ st₂.env = files₁ (world st₁.env))
    (ops₁ : List ScpTreeOp) (ops₂ : List SftpTreeOp) (hask : ops₂.map SftpTreeOp.ask = ops₁.map ScpTreeOp.ask)
    (hplain : ∀ op ∈ ops₁, Sh.Plain (absolutize st₁.self.wrkdir op.ask.path)) :
    ((told H₁ (fun op => op.1.run L) ScpTreeOp.ask ops₁ st₁).map Prod.snd =
        (told H₂ (fun op => op.1.run) SftpTreeOp.ask ops₂ st₂).map Prod.snd ↔
      NoDangling G st₁.self.wrkdir (files₁ (world st₁.env)) (ops₁.map ScpTreeOp.ask)) ∧
    (NoDangling G st₁.self.wrkdir (files₁ (world st₁.env)) (ops₁.map ScpTreeOp.ask) →
      files₁ (world (runAll H₁ (fun op : ScpTreeOp => op.1.run L) ops₁ st₁).env) =
        files₂ (runAll H₂ (fun op : SftpTreeOp => op.1.run) ops₂ st₂).env) := by
  obtain ⟨htold₁, hfiles₁⟩ := told_answers (fun op : ScpTreeOp => op.1.run L) ScpTreeOp.ask
    (fun env => files₁ (world env))
    (scpAnswer G st₁.self.wrkdir) (fun op hop st hk =>
      ScpFs.run_answers hs₁ hH hM hw (hplain op hop) L rfl ⟨hk, rfl⟩) rfl
  obtain ⟨htold₂, hfiles₂⟩ := told_answers (fun op : SftpTreeOp => op.1.run) SftpTreeOp.ask files₂
    (sftpAnswer G st₂.self.wrkdir) (fun op (_ : op ∈ ops₂) st hk =>
      SftpFs.run_answers hS hs₂ hf (by rwa [hwd]) ⟨hk, rfl⟩) rfl
  have hprune : ∀ a ∈ ops₁.map ScpTreeOp.ask, a.kind ≠ some .prune := by
    rw [← hask]
    rintro a ha
    obtain ⟨op, -, rfl⟩ := List.mem_map.1 ha
    exact op.ask_kind
  rw [htold₁, htold₂, hfiles₁, hfiles₂, htree, hask, hwd]
  exact answers_eq_iff _ hG hprune

/-! ## The server with three entries -/

namespace SampleDirs

def read (t : Tree Str Str) : SampleDirs := ⟨(t [d]).isSome, (t [f]).isSome, (t [l]).isSome⟩

theorem read_tree (w : SampleDirs) : read w.tree = w := by
  obtain ⟨dir, file, link⟩ := w
  have hdir : ((⟨dir, file, link⟩ : SampleDirs).tree [d]).isSome = dir := by cases dir <;> rfl
  have hfile : ((⟨dir, file, link⟩ : SampleDirs).tree [f]).isSome = file := by cases file <;> rfl
  have hlink : ((⟨dir, file, link⟩ : SampleDirs).tree [l]).isSome = link := by cases link <;> rfl
  rw [read, hdir, hfile, hlink]

open Classical in
/-- What the server grants; other trees are left alone. -/
noncomputable def grants : Grants Str := fun kind t p =>
    if t = (read t).tree then (change kind (read t) p).map tree else none

theorem grants_tree (kind : ChangeKind) (w : SampleDirs) (p : PathBuf) :
    grants kind w.tree p = (change kind w p).map tree := by
  unfold grants
  rw [read_tree, if_pos rfl]

theorem grants_lawful : grants.Lawful := by
  intro kind t p t' h
  unfold grants at h
  split at h
  · rename_i ht
    obtain ⟨w', hw', rfl⟩ := Option.map_eq_some_iff.1 h
    rw [ht]
    exact change_ready hw'
  · cases h

theorem grants_isSome (kind : ChangeKind) (w : SampleDirs) (p : PathBuf) :
    (grants kind w.tree p).isSome = (change kind w p).isSome := by
  rw [grants_tree, Option.isSome_map]

theorem grants_getD (kind : ChangeKind) (w : SampleDirs) (p : PathBuf) :
    ((change kind w p).getD w).tree = (grants kind w.tree p).getD w.tree := by
  rw [grants_tree]
  cases change kind w p with
  | none => rfl
  | some w' => rfl

theorem shellGrants : ShellGrants machine tree grants where
  existsPath_silent _ _ := rfl
  existsPath_same _ _ := rfl
  existsPath w p _ := by
    rw [← w.found_iff p]
    show (if w.found p then (0 : UInt8) else 1) = 0 ↔ _
    cases w.found p with
    | true => exact iff_of_true rfl rfl
    | false => exact iff_of_false (by decide) (by decide)
  silent := changesTree.silent
  changes c kind p w hc _ hleads := by
    rw [utility_eq c kind p w hc, grants_isSome]
    refine ⟨exit_eq_zero.trans (or_iff_left ?_), grants_getD kind w p⟩
    rintro ⟨hkind, hno⟩
    rw [(w.found_iff p).2 (hleads hkind)] at hno
    cases hno

theorem requestGrants : RequestGrants (fun env => env.1.tree) server grants where
  up _ _ := rfl
  idle := server_changes.idle
  stat f p env _ := by
    rw [← env.1.found_iff p]
    show (SampleDirs.stat env.1 p).isOk = true ↔ _
    unfold SampleDirs.stat
    cases env.1.found p with
    | true => exact iff_of_true rfl rfl
    | false => exact iff_of_false (by decide) (by decide)
  mkdir f p mode env _ := ⟨(answer_isOk .mkdir env.1 p).trans (grants_isSome ..).symm, grants_getD .mkdir env.1 p⟩
  unlink f p env _ := ⟨(answer_isOk .unlink env.1 p).trans (grants_isSome ..).symm, grants_getD .unlink env.1 p⟩
  rmdir f p env _ := ⟨(answer_isOk .rmdir env.1 p).trans (grants_isSome ..).symm, grants_getD .rmdir env.1 p⟩

end SampleDirs

open SampleDirs in
/-- The link is to be removed at last, so the clients do not agree; without it they do, and leave the same tree. -/
theorem changes_agree_sample :
    ¬ NoDangling grants ['/'] start.tree (scpOps.map ScpTreeOp.ask) ∧
    NoDangling grants ['/'] start.tree (scpOps.dropLast.map ScpTreeOp.ask) ∧
    (runAll server (fun op : ScpTreeOp => op.1.run sampleLibs) scpOps.dropLast scpClient).env.1.tree =
      (runAll server (fun op : SftpTreeOp => op.1.run) sftpOps.dropLast sftpClient).env.1.tree := by
  have hno := (changes_agree grants_lawful server_serves shellGrants requestGrants sampleLibs scpClient sftpClient
    rfl rfl rfl rfl rfl rfl scpOps sftpOps rfl (by decide +kernel)).1
  obtain ⟨heq, htree⟩ := changes_agree grants_lawful server_serves shellGrants requestGrants
    sampleLibs scpClient sftpClient
    rfl rfl rfl rfl rfl rfl scpOps.dropLast sftpOps.dropLast rfl (by decide +kernel)
  have hyes := heq.1 (by decide +kernel)
  exact ⟨fun h => absurd (hno.2 h) (by decide +kernel), hyes, htree hyes⟩

end RemotefsSsh
