import RemotefsSsh.Hosts
import RemotefsSsh.Setstat

/-!
# The times that `setstat` writes over SCP (utils/fmt.rs:10, ssh/scp.rs:402-416)

`setstat` prints a time in UTC, and `touch -t` reads it on the clock of the server. The conversion panics for a
year that `chrono` does not know, and `touch` refuses a year of other than four digits. A `setstat` keeps the times
it was given exactly when no time it comes to is unknown, and the times that `touch` takes are read back
(`setstat_times_iff`).
-/

namespace RemotefsSsh

open Utf8 UnixPath Effect Prog Calendar Strftime

/-! ## Servers with a clock -/

/-- A `touch` of either time. -/
inductive IsTouch (path : PathBuf) : (Str → ShellCmd) → Prop where
  | access : IsTouch path (ShellCmd.touchAccess · path)
  | modify : IsTouch path (ShellCmd.touchModify · path)

/-- The commands of a `setstat`. -/
inductive Sets : ShellCmd → Prop where
  | test (path : PathBuf) : Sets (.existsPath path)
  | chmod (mode : UInt32) (path : PathBuf) : Sets (.chmod mode path)
  | chown (user : UInt32) (gid : Option UInt32) (path : PathBuf) : Sets (.chown user gid path)
  | touch {path : PathBuf} {c : Str → ShellCmd} (hc : IsTouch path c) (time : Str) : Sets (c time)

/-- The utilities print nothing, and a `touch` only exits with 0 if its argument is a time on the clock of the server.
`zone` finds the moment at which that clock shows a time, if there is one. -/
structure Clocked {ω : Type} (M : Sh.Machine ω) (zone : Int → Option Int) (thisYear : Nat) : Prop where
  silent : ∀ w c, Sets c → (M.utility w M.home c.words).1 = []
  touch : ∀ w path c time, IsTouch path c → (M.utility w M.home (c time).words).2.1 = 0 →
    ((readTouch thisYear time).bind zone).isSome = true

/-- A time that `touch` takes. -/
def Taken (zone : Int → Option Int) (t : SystemTime) : Prop := FourDigits t ∧ (zone t.secs).isSome = true

/-- No time that is come to is unknown: what follows a time that is refused does not matter. -/
def Written (first last : Int) (zone : Int → Option Int) : List SystemTime → Prop
  | [] => True
  | t :: ts => Known first last t ∧ (Taken zone t → Written first last zone ts)

theorem taken_iff {zone : Int → Option Int} {thisYear : Nat} {t : SystemTime} :
    ((readTouch thisYear (civilStamp t)).bind zone).isSome = true ↔ Taken zone t := by
  by_cases h : FourDigits t
  · rw [(readTouch_civilStamp thisYear t).1 h, Option.bind_some]
    exact ⟨fun hz => ⟨h, hz⟩, fun ht => ht.2⟩
  · rw [(readTouch_civilStamp thisYear t).2 h]
    exact iff_of_false (by simp) fun ht => h ht.1

namespace ScpFs

section
variable {σ : Type}

/-- One of the times. -/
def touch (L : Libs) (x : SystemTime × (Str → ShellCmd)) : Remote ScpFs σ Unit := do
  assertStatCommand (x.2 (← touchTime L x.1))

def touches (L : Libs) : List (SystemTime × (Str → ShellCmd)) → Remote ScpFs σ Unit
  | [] => pure ()
  | x :: xs => do
    touch L x
    touches L xs

/-- The times that are given, and what writes them. -/
def touchCmds (m : Metadata) (path : PathBuf) : List (SystemTime × (Str → ShellCmd)) :=
  (m.accessed.map fun t => (t, (ShellCmd.touchAccess · path))).toList ++
    (m.modified.map fun t => (t, (ShellCmd.touchModify · path))).toList

theorem bind_pure_unit (m : Remote ScpFs σ Unit) : (m >>= fun _ => pure ()) = m := by
  funext H st
  rw [bind_run]
  split <;> rename_i h <;> rw [h]
  rfl

theorem touches_eq (L : Libs) (m : Metadata) (path : PathBuf) :
    (do
      ifSome m.accessed fun accessed => do
        assertStatCommand (.touchAccess (← touchTime L accessed) path)
      ifSome m.modified fun modified => do
        assertStatCommand (.touchModify (← touchTime L modified) path) : Remote ScpFs σ Unit) =
      touches L (touchCmds m path) := by
  unfold touchCmds
  cases m.accessed with
  | none =>
    cases m.modified with
    | none => rfl
    | some t => exact (bind_pure_unit (touch L (t, (ShellCmd.touchModify · path)))).symm
  | some a =>
    cases m.modified with
    | none => rfl
    | some t =>
      have hlast := (bind_pure_unit (σ := σ) (touch L (t, (ShellCmd.touchModify · path)))).symm
      exact congrArg (fun n => touch L (a, (ShellCmd.touchAccess · path)) >>= fun _ => n) hlast

end

end ScpFs

/-! ## What a client does on such a server -/

section
variable {σ ω κ : Type} {M : Sh.Machine ω} {world : σ → ω} {H : Handler Ssh σ} {st st' : St Ssh κ σ}

theorem performShellCmd_calm (session : SshSession) (cmd : Str) :
    Calm H (performShellCmd session cmd : Remote κ σ Str) st := by
  unfold performShellCmd
  refine .bind (.call _) fun r st₁ _ => ?_
  cases r with
  | error err => exact .throw _
  | ok channel =>
    refine .bind (.call _) fun r st₂ _ => ?_
    cases r with
    | error err => exact .throw _
    | ok _ =>
      refine .bind (.call _) fun r st₃ _ => ?_
      cases r with
      | error err => exact .throw _
      | ok output => exact .bind (.call _) fun _ _ _ => .pure _

/-- The reply to a command that prints nothing can be cut. -/
theorem Hosts.rc_calm (hH : Hosts M world H) {c : ShellCmd} (hc : c.Calls M) (session : SshSession) :
    Calm H (performShellCmdWithRc session c.text : Remote κ σ _) st := by
  unfold performShellCmdWithRc
  rw [ShellCmd.line_of_withRc hc.withRc]
  refine .bind (performShellCmd_calm session _) fun reply st₁ h₁ => .ofOut fun p hp => ?_
  rw [(hH.reply hc h₁).1, rcOfOutput_framed_blank blank_nil] at hp
  cases hp

end

namespace ScpFs

section
variable {σ ω : Type} {M : Sh.Machine ω} {world : σ → ω} {H : Handler Ssh σ} {st st' : St Ssh ScpFs σ}

theorem checkConnection_calm : Calm H (checkConnection : Remote ScpFs σ Unit) st := by
  unfold checkConnection isConnected
  refine .bind (.self ?_) fun b st₁ _ => ?_
  · cases st.self.session with
    | none => exact .pure _
    | some session => exact .call _
  · cases b with
    | false => exact .throw _
    | true => exact .pure _

/-- A command for which the session is there, whatever is made of its result. -/
theorem bind_rc_calm {α : Type} (hH : Hosts M world H) {c : ShellCmd} (hc : c.Calls M) {session : SshSession}
    (hs : st.self.session = some session) {f : Except RemoteError (UInt32 × Str) → Remote ScpFs σ α}
    (hf : ∀ r st', Calm H (f r) st') :
    Calm H (self >>= fun fs => unwrap fs.session >>= fun s => attempt (performShellCmdWithRc s c.text) >>= f) st := by
  refine .self ?_
  rw [hs]
  refine .bind (.pure session) fun _ st₁ h => ?_
  cases h
  exact .bind (.attempt (hH.rc_calm hc session)) fun r st₂ _ => hf r st₂

theorem runRc_calm (hH : Hosts M world H) {c : ShellCmd} (hc : c.Calls M) (bad : RemoteError) (kind : RemoteErrorType)
    {session : SshSession} (hs : st.self.session = some session) : Calm H (runRc c bad kind) st := by
  refine bind_rc_calm hH hc hs fun r st' => ?_
  cases r with
  | error err => exact .throw _
  | ok p =>
    by_cases hrc : p.1 = 0
    · simp only [hrc, if_true]
      exact .pure _
    · simp only [hrc, if_false]
      exact .throw _

theorem runTest_calm (hH : Hosts M world H) {c : ShellCmd} (hc : c.Calls M) {session : SshSession}
    (hs : st.self.session = some session) : Calm H (runTest c) st := by
  refine bind_rc_calm hH hc hs fun r st' => ?_
  cases r with
  | error err => exact .throw _
  | ok p => exact .pure _

theorem existsOrFalse_calm (hH : Hosts M world H) {path : PathBuf}
    (hc : (ShellCmd.existsPath (absolutize st.self.wrkdir path)).Calls M) : Calm H (existsOrFalse path) st := by
  unfold existsOrFalse existsPath
  refine .bind (.attempt (.bind checkConnection_calm fun _ st₁ h₁ => ?_)) fun r st₂ _ => ?_
  · obtain ⟨hself, -, session, hs⟩ := checkConnection_looks hH h₁
    refine .self ?_
    rw [hself]
    exact runTest_calm hH hc (hself ▸ hs)
  · cases r with
    | ok b => exact .pure _
    | error err => exact .pure _

variable {L : Libs} {first last : Int} {zone : Int → Option Int} {thisYear : Nat} {path : PathBuf}

theorem touch_calls (hM : Clocked M zone thisYear) (hq : Sh.Plain path) {c : Str → ShellCmd} (hc : IsTouch path c)
    (t : SystemTime) : (c (civilStamp t)).Calls M := by
  have hsilent : ∀ w, (M.utility w M.home (c (civilStamp t)).words).1 = [] := fun w => hM.silent w _ (.touch hc _)
  cases hc with
  | access => exact ShellCmd.calls rfl (ordinary_civilStamp t) (ShellCmd.plain_one hq) hsilent
  | modify => exact ShellCmd.calls rfl (ordinary_civilStamp t) (ShellCmd.plain_one hq) hsilent

/-- The time is printed, or the conversion panics. -/
theorem touch_run (hL : L.chrono.Formats first last) (x : SystemTime × (Str → ShellCmd)) :
    (Known first last x.1 → touch L x H st = assertStatCommand (x.2 (civilStamp x.1)) H st) ∧
      (¬ Known first last x.1 → touch L x H st = (.panic .outOfRange, st)) := by
  refine ⟨fun h => ?_, fun h => ?_⟩
  · have htime : (touchTime L x.1 : Remote ScpFs σ Str) H st = (.ok (civilStamp x.1), st) := by
      rw [touchTime, ofOut_run, fmtTimeUtc, hL.known _ h]
    exact bind_ok htime
  · have htime : (touchTime L x.1 : Remote ScpFs σ Str) H st = (.panic .outOfRange, st) := by
      rw [touchTime, ofOut_run, fmtTimeUtc, hL.unknown _ h]
    exact bind_panic htime

theorem touch_taken (hH : Hosts M world H) (hM : Clocked M zone thisYear) (hL : L.chrono.Formats first last)
    (hq : Sh.Plain path) {x : SystemTime × (Str → ShellCmd)} (hx : IsTouch path x.2)
    (h : touch L x H st = (.ok (), st')) : st'.self = st.self ∧ Known first last x.1 ∧ Taken zone x.1 := by
  by_cases hk : Known first last x.1
  · rw [(touch_run hL x).1 hk] at h
    obtain ⟨hself, hcode, -⟩ := runRc_hosts hH (touch_calls hM hq hx x.1) h
    exact ⟨hself, hk, taken_iff.1 (hM.touch _ _ _ _ hx hcode)⟩
  · rw [(touch_run hL x).2 hk] at h
    cases h

theorem touches_taken (hH : Hosts M world H) (hM : Clocked M zone thisYear) (hL : L.chrono.Formats first last)
    (hq : Sh.Plain path) {xs : List (SystemTime × (Str → ShellCmd))} (hxs : ∀ x ∈ xs, IsTouch path x.2)
    (h : touches L xs H st = (.ok (), st')) : ∀ t ∈ xs.map Prod.fst, Taken zone t := by
  induction xs generalizing st with
  | nil => simp
  | cons x xs ih =>
    obtain ⟨_, st₁, h₁, h⟩ := bind_eq_ok h
    obtain ⟨-, -, htaken⟩ := touch_taken hH hM hL hq (hxs x List.mem_cons_self) h₁
    intro t ht
    rcases List.mem_cons.1 ht with rfl | ht
    · exact htaken
    · exact ih (fun y hy => hxs y (List.mem_cons_of_mem _ hy)) h t ht

theorem touches_calm (hH : Hosts M world H) (hM : Clocked M zone thisYear) (hL : L.chrono.Formats first last)
    (hq : Sh.Plain path) {xs : List (SystemTime × (Str → ShellCmd))} (hxs : ∀ x ∈ xs, IsTouch path x.2)
    (hw : Written first last zone (xs.map Prod.fst)) {session : SshSession} (hs : st.self.session = some session) :
    Calm H (touches L xs) st := by
  induction xs generalizing st with
  | nil => exact .pure ()
  | cons x xs ih =>
    obtain ⟨hk, hrest⟩ := hw
    have hx := hxs x List.mem_cons_self
    refine .bind (fun p => ?_) fun _ st₁ h₁ => ?_
    · rw [(touch_run hL x).1 hk]
      exact runRc_calm hH (touch_calls hM hq hx x.1) _ _ hs p
    · obtain ⟨hself, -, htaken⟩ := touch_taken hH hM hL hq hx h₁
      exact ih (fun y hy => hxs y (List.mem_cons_of_mem _ hy)) (hrest htaken) (hself ▸ hs)

/-! ### A server on which everything but a `touch` succeeds -/

/-- A command that is sure to come back with 0. -/
theorem assertStatCommand_serves (hH : Serves M world H) {c : ShellCmd} (hc : c.Calls M) {session : SshSession}
    (hs : st.self.session = some session) (hcode : ∀ w, (M.utility w M.home c.words).2.1 = 0) :
    ∃ st', assertStatCommand c H st = (.ok (), st') ∧ st'.self = st.self := by
  obtain ⟨⟨rc, out⟩, st₁, h₁⟩ := hH.rc hc session st
  obtain ⟨hrc, -⟩ := hH.toHosts.rc hc h₁
  rw [hcode] at hrc
  have hrun : assertStatCommand c H st = (.ok (), st₁) := by
    unfold assertStatCommand runRc
    rw [bind_ok self_run, hs, bind_ok (unwrap_run session), bind_ok (attempt_ok h₁), hrc]
    rfl
  exact ⟨st₁, hrun, performShellCmdWithRc_self h₁⟩

/-- The times up to the first one that is refused are written, and an unknown one among them makes the run panic. -/
theorem touches_serves (hH : Serves M world H) (hM : Clocked M zone thisYear) (hL : L.chrono.Formats first last)
    (htouch : ∀ w path c time, IsTouch path c → ((readTouch thisYear time).bind zone).isSome = true →
      (M.utility w M.home (c time).words).2.1 = 0)
    (hq : Sh.Plain path) {xs : List (SystemTime × (Str → ShellCmd))} (hxs : ∀ x ∈ xs, IsTouch path x.2)
    {session : SshSession} (hs : st.self.session = some session) :
    (¬ Written first last zone (xs.map Prod.fst) → ¬ Calm H (touches L xs) st) ∧
      (Written first last zone (xs.map Prod.fst) → (∀ t ∈ xs.map Prod.fst, Taken zone t) →
        ∃ st', touches L xs H st = (.ok (), st')) := by
  induction xs generalizing st with
  | nil => exact ⟨fun h => absurd trivial h, fun _ _ => ⟨st, rfl⟩⟩
  | cons x xs ih =>
    have hx := hxs x List.mem_cons_self
    have hrest := fun y hy => hxs y (List.mem_cons_of_mem x hy)
    have hstep : Known first last x.1 → Taken zone x.1 → ∃ st', touch L x H st = (.ok (), st') ∧
      st'.self = st.self := by
      intro hk ht
      rw [(touch_run hL x).1 hk]
      exact assertStatCommand_serves hH (touch_calls hM hq hx x.1) hs fun w => htouch w _ _ _ hx (taken_iff.2 ht)
    constructor
    · intro hw hcalm
      by_cases hk : Known first last x.1
      · have hw' : ¬ (Taken zone x.1 → Written first last zone (xs.map Prod.fst)) := fun h => hw ⟨hk, h⟩
        obtain ⟨ht, hw'⟩ := Classical.not_imp.1 hw'
        obtain ⟨st₁, h₁, hself⟩ := hstep hk ht
        refine (ih hrest (hself ▸ hs)).1 hw' fun p hp => hcalm p ?_
        rw [touches, bind_ok h₁]
        exact hp
      · refine hcalm .outOfRange ?_
        rw [touches, bind_panic ((touch_run hL x).2 hk)]
    · intro hw htaken
      obtain ⟨hk, hw⟩ := hw
      have ht := htaken x.1 List.mem_cons_self
      obtain ⟨st₁, h₁, hself⟩ := hstep hk ht
      rw [touches, bind_ok h₁]
      exact (ih hrest (hself ▸ hs)).2 (hw ht) fun t ht => htaken t (List.mem_cons_of_mem _ ht)

/-! ## `setstat` -/

theorem map_touchCmds (m : Metadata) (path : PathBuf) : (touchCmds m path).map Prod.fst = times m := by
  unfold touchCmds times
  cases m.accessed <;> cases m.modified <;> rfl

theorem isTouch_touchCmds {m : Metadata} {x : SystemTime × (Str → ShellCmd)} (hx : x ∈ touchCmds m path) :
    IsTouch path x.2 := by
  simp only [touchCmds, List.mem_append, Option.mem_toList, Option.map_eq_some_iff] at hx
  rcases hx with ⟨t, -, rfl⟩ | ⟨t, -, rfl⟩
  · exact .access
  · exact .modify

theorem existsPath_calls (hM : Clocked M zone thisYear) (hq : Sh.Plain path) : (ShellCmd.existsPath path).Calls M :=
  ShellCmd.calls rfl trivial (ShellCmd.plain_one hq) fun w => hM.silent w _ (.test path)

theorem chmod_calls (hM : Clocked M zone thisYear) (hq : Sh.Plain path) (mode : UInt32) :
    (ShellCmd.chmod mode path).Calls M :=
  ShellCmd.calls rfl trivial (ShellCmd.plain_one hq) fun w => hM.silent w _ (.chmod mode path)

theorem chown_calls (hM : Clocked M zone thisYear) (hq : Sh.Plain path) (user : UInt32) (gid : Option UInt32) :
    (ShellCmd.chown user gid path).Calls M :=
  ShellCmd.calls rfl trivial (ShellCmd.plain_one hq) fun w => hM.silent w _ (.chown user gid path)

theorem ifSome_self {α : Type} {o : Option α} {f : α → Remote ScpFs σ Unit}
    (hf : ∀ a st st', f a H st = (.ok (), st') → st'.self = st.self) (h : ifSome o f H st = (.ok (), st')) :
    st'.self = st.self := by
  cases o with
  | none => cases h; rfl
  | some a => exact hf a st st' h

theorem assertStatCommand_self (hH : Hosts M world H) {c : ShellCmd} (hc : c.Calls M)
    (h : assertStatCommand c H st = (.ok (), st')) : st'.self = st.self := (runRc_hosts hH hc h).1

section
variable {m : Metadata} {p : PathBuf}

theorem setstat_calm (hH : Hosts M world H) (hM : Clocked M zone thisYear) (hL : L.chrono.Formats first last)
    (hq : Sh.Plain (absolutize st.self.wrkdir p))
    (hq' : Sh.Plain (absolutize st.self.wrkdir (absolutize st.self.wrkdir p)))
    (hw : Written first last zone (times m)) : Calm H (setstat L p m) st := by
  unfold setstat
  refine .bind checkConnection_calm fun _ st₁ h₁ => ?_
  obtain ⟨hself₁, -, session, hs⟩ := checkConnection_looks hH h₁
  rw [← hself₁] at hq hq' hs
  refine .self (.bind (existsOrFalse_calm hH (existsPath_calls hM hq')) fun b st₂ h₂ => ?_)
  cases b with
  | false => exact .throw _
  | true =>
    obtain ⟨hself₂, -, -⟩ := existsOrFalse_hosts hH (existsPath_calls hM hq') h₂
    rw [← hself₂] at hs
    rw [if_pos rfl]
    refine .bind (.ifSome fun mode _ => runRc_calm hH (chmod_calls hM hq _) _ _ hs) fun _ st₃ h₃ => ?_
    have hself₃ := ifSome_self (fun mode s s' => assertStatCommand_self hH (chmod_calls hM hq _)) h₃
    rw [← hself₃] at hs
    refine .bind (.ifSome fun user _ => runRc_calm hH (chown_calls hM hq user _) _ _ hs) fun _ st₄ h₄ => ?_
    have hself₄ := ifSome_self (fun user s s' => assertStatCommand_self hH (chown_calls hM hq user _)) h₄
    rw [← hself₄] at hs
    rw [touches_eq]
    refine touches_calm hH hM hL hq (fun x hx => isTouch_touchCmds hx) ?_ hs
    rw [map_touchCmds]
    exact hw

theorem setstat_taken (hH : Hosts M world H) (hM : Clocked M zone thisYear) (hL : L.chrono.Formats first last)
    (hq : Sh.Plain (absolutize st.self.wrkdir p)) (h : setstat L p m H st = (.ok (), st')) :
    ∀ t ∈ times m, Taken zone t := by
  unfold setstat at h
  obtain ⟨_, st₁, h₁, h⟩ := bind_eq_ok h
  obtain ⟨hself₁, -, -⟩ := checkConnection_looks hH h₁
  rw [bind_ok self_run, hself₁] at h
  obtain ⟨b, st₂, h₂, h⟩ := bind_eq_ok h
  cases b with
  | false => cases h
  | true =>
    rw [if_pos rfl] at h
    obtain ⟨_, st₃, h₃, h⟩ := bind_eq_ok h
    obtain ⟨_, st₄, h₄, h⟩ := bind_eq_ok h
    rw [touches_eq] at h
    have htaken := touches_taken hH hM hL hq (fun x hx => isTouch_touchCmds hx) h
    rwa [map_touchCmds] at htaken

theorem ifSome_serves {α : Type} (o : Option α) (st : St Ssh ScpFs σ) {f : α → Remote ScpFs σ Unit}
    (hf : ∀ a, ∃ st', f a H st = (.ok (), st') ∧ st'.self = st.self) :
    ∃ st', ifSome o f H st = (.ok (), st') ∧ st'.self = st.self := by
  cases o with
  | none => exact ⟨st, rfl, rfl⟩
  | some a => exact hf a

/-- Where the test, the `chmod` and the `chown` succeed, the run comes to the times. -/
theorem setstat_serves (hH : Serves M world H) (hM : Clocked M zone thisYear)
    (hcode : ∀ w c, Sets c → (∀ q f time, IsTouch q f → c ≠ f time) → (M.utility w M.home c.words).2.1 = 0)
    (hq : Sh.Plain (absolutize st.self.wrkdir p))
    (hq' : Sh.Plain (absolutize st.self.wrkdir (absolutize st.self.wrkdir p))) {session : SshSession}
    (hs : st.self.session = some session) :
    ∃ st₁, setstat L p m H st = touches L (touchCmds m (absolutize st.self.wrkdir p)) H st₁ ∧ st₁.self = st.self := by
  have hno : ∀ {c : ShellCmd}, (∀ time q, c ≠ .touchAccess time q) → (∀ time q, c ≠ .touchModify time q) →
      ∀ q f time, IsTouch q f → c ≠ f time := by
    intro c ha hm q f time hf
    cases hf with
    | access => exact ha time q
    | modify => exact hm time q
  obtain ⟨st₁, h₁⟩ := checkConnection_serves hH hs
  obtain ⟨hself₁, -, -⟩ := checkConnection_looks hH.toHosts h₁
  rw [← hself₁] at hq hq' hs
  obtain ⟨b, st₂, h₂⟩ := existsPath_serves hH (existsPath_calls hM hq') hs
  obtain ⟨hself₂, hb, -⟩ := existsPath_hosts hH.toHosts (existsPath_calls hM hq') h₂
  rw [hcode _ _ (.test _) (hno (by simp) (by simp))] at hb
  have hexists : existsOrFalse (absolutize st₁.self.wrkdir p) H st₁ = (.ok true, st₂) := by
    unfold existsOrFalse
    rw [bind_ok (attempt_ok h₂), hb]
    rfl
  rw [← hself₂] at hs
  obtain ⟨st₃, h₃, hself₃⟩ := ifSome_serves m.mode st₂ fun mode : UnixPex =>
    assertStatCommand_serves hH (chmod_calls hM hq mode.toU32) hs fun w =>
      hcode w _ (.chmod _ _) (hno (by simp) (by simp))
  rw [← hself₃] at hs
  obtain ⟨st₄, h₄, hself₄⟩ := ifSome_serves m.uid st₃ fun user =>
    assertStatCommand_serves hH (chown_calls hM hq user m.gid) hs fun w =>
      hcode w _ (.chown _ _ _) (hno (by simp) (by simp))
  refine ⟨st₄, ?_, hself₄.trans (hself₃.trans (hself₂.trans hself₁))⟩
  unfold setstat
  rw [bind_ok h₁, bind_ok self_run, bind_ok hexists, if_pos rfl, bind_ok h₃, bind_ok h₄, touches_eq, hself₁]

end

/-! ## Which fields a line is about -/

/-- The fields a line sets, as its text shows them. -/
def fieldsOf : Str → List Field
  | 'c' :: 'h' :: 'm' :: _ => [.mode]
  | 'c' :: 'h' :: 'o' :: 'w' :: 'n' :: ' ' :: rest =>
    .uid :: if ':' ∈ rest.takeWhile (· != ' ') then [.gid] else []
  | 't' :: 'o' :: 'u' :: 'c' :: 'h' :: ' ' :: '-' :: 'a' :: _ => [.accessed]
  | 't' :: 'o' :: 'u' :: 'c' :: 'h' :: ' ' :: '-' :: 'm' :: _ => [.modified]
  | _ => []

theorem fieldsOf_touchAccess (s : Str) (p : PathBuf) : fieldsOf (ShellCmd.touchAccess s p).line = [.accessed] := rfl

theorem fieldsOf_touchModify (s : Str) (p : PathBuf) : fieldsOf (ShellCmd.touchModify s p).line = [.modified] := rfl

theorem takeWhile_word {a b : Str} (h : ' ' ∉ a) : (a ++ ' ' :: b).takeWhile (· != ' ') = a := by
  induction a with
  | nil => rfl
  | cons c a ih =>
    simp only [List.mem_cons, not_or] at h
    rw [List.cons_append, List.takeWhile_cons, if_pos (by simpa using Ne.symm h.1), ih h.2]

theorem fieldsOf_chown (user : UInt32) (gid : Option UInt32) (p : PathBuf) :
    fieldsOf (ShellCmd.chown user gid p).line = .uid :: if gid.isSome then [.gid] else [] := by
  have hshape : ∃ rest, (ShellCmd.chown user gid p).line =
      'c' :: 'h' :: 'o' :: 'w' :: 'n' :: ' ' ::
        ((decimal user.toNat ++ (gid.map fun x => ':' :: decimal x.toNat).getD []) ++ ' ' :: rest) :=
    ⟨quoted p ++ ShellCmd.rcTail, by
      unfold ShellCmd.line ShellCmd.text
      rw [show "chown ".toList = ['c', 'h', 'o', 'w', 'n', ' '] from rfl]
      simp [ShellCmd.withRc]⟩
  obtain ⟨rest, hrest⟩ := hshape
  have hblank := not_mem_decimal (c := ' ') rfl
  have hcolon := not_mem_decimal (c := ':') rfl
  have hword : ' ' ∉ decimal user.toNat ++ (gid.map fun x => ':' :: decimal x.toNat).getD [] := by
    cases gid <;> simp [hblank]
  rw [hrest, fieldsOf, takeWhile_word hword]
  cases gid <;> simp [hcolon]

/-! ## The arguments in the log -/

/-- The time was passed to a `touch`, and every argument that was passed to one is read as that second. -/
structure PassedOn (zone : Int → Option Int) (thisYear : Nat) (c : Str → ShellCmd) (t : SystemTime)
    (log : List (Sigma SshCall.Reply)) : Prop where
  passed : ∃ arg, (c arg).line ∈ linesOf log
  read : ∀ arg, (c arg).line ∈ linesOf log → (readTouch thisYear arg).bind zone = some t.secs

/-- Both times that were given. -/
structure TimesRead (zone : Int → Option Int) (thisYear : Nat) (m : Metadata) (path : PathBuf)
    (log : List (Sigma SshCall.Reply)) : Prop where
  accessed : ∀ t, m.accessed = some t → PassedOn zone thisYear (ShellCmd.touchAccess · path) t log
  modified : ∀ t, m.modified = some t → PassedOn zone thisYear (ShellCmd.touchModify · path) t log

/-- A line shows the argument. -/
theorem touch_arg_inj {path : PathBuf} {c : Str → ShellCmd} (hc : IsTouch path c) {a b : Str}
    (h : (c a).line = (c b).line) : a = b := by
  have key : ∀ {front back : Str}, front ++ a ++ back ++ ShellCmd.rcTail = front ++ b ++ back ++
    ShellCmd.rcTail → a = b :=
    fun h => List.append_cancel_left (List.append_cancel_right (List.append_cancel_right h))
  cases hc with
  | access => exact key h
  | modify => exact key h

section
variable {m : Metadata} {p : PathBuf}

/-- The only line of its kind. -/
theorem line_mem_setstatCmds {log : List (Sigma SshCall.Reply)} {q : PathBuf}
    (hlines : linesOf log = (ShellCmd.existsPath q :: setstatCmds L m path).map ShellCmd.line) (arg : Str) :
    ((ShellCmd.touchAccess arg path).line ∈ linesOf log ↔ m.accessed.bind (stamp L) = some arg) ∧
      ((ShellCmd.touchModify arg path).line ∈ linesOf log ↔ m.modified.bind (stamp L) = some arg) := by
  have hkind : ∀ c : ShellCmd, c.line ∈ linesOf log → ∃ d ∈ ShellCmd.existsPath q :: setstatCmds L m path,
      d.line = c.line ∧ fieldsOf d.line = fieldsOf c.line := by
    intro c hc
    rw [hlines, List.mem_map] at hc
    obtain ⟨d, hd, hline⟩ := hc
    exact ⟨d, hd, hline, by rw [hline]⟩
  constructor
  · refine ⟨fun h => ?_, fun h => ?_⟩
    · obtain ⟨d, hd, hline, hfields⟩ := hkind _ h
      rw [fieldsOf_touchAccess] at hfields
      rw [List.mem_cons, mem_setstatCmds] at hd
      rcases hd with rfl | ⟨mode, -, rfl⟩ | ⟨user, -, rfl⟩ | ⟨t, time, ht, htime, rfl⟩ | ⟨t, time, -, -, rfl⟩
      · cases hfields
      · cases hfields
      · rw [fieldsOf_chown] at hfields
        cases hfields
      · rw [← touch_arg_inj .access hline, ht]
        exact htime
      · cases hfields
    · obtain ⟨t, ht, htime⟩ := Option.bind_eq_some_iff.1 h
      rw [hlines]
      refine List.mem_map_of_mem (List.mem_cons_of_mem _ (mem_setstatCmds.2 ?_))
      exact Or.inr (Or.inr (Or.inl ⟨t, arg, ht, htime, rfl⟩))
  · refine ⟨fun h => ?_, fun h => ?_⟩
    · obtain ⟨d, hd, hline, hfields⟩ := hkind _ h
      rw [fieldsOf_touchModify] at hfields
      rw [List.mem_cons, mem_setstatCmds] at hd
      rcases hd with rfl | ⟨mode, -, rfl⟩ | ⟨user, -, rfl⟩ | ⟨t, time, -, -, rfl⟩ | ⟨t, time, ht, htime, rfl⟩
      · cases hfields
      · cases hfields
      · rw [fieldsOf_chown] at hfields
        cases hfields
      · cases hfields
      · rw [← touch_arg_inj .modify hline, ht]
        exact htime
    · obtain ⟨t, ht, htime⟩ := Option.bind_eq_some_iff.1 h
      rw [hlines]
      refine List.mem_map_of_mem (List.mem_cons_of_mem _ (mem_setstatCmds.2 ?_))
      exact Or.inr (Or.inr (Or.inr ⟨t, arg, ht, htime, rfl⟩))

/-- The times that were taken are read as themselves. -/
theorem timesRead_iff (hL : L.chrono.Formats first last) (htaken : ∀ t ∈ times m, Taken zone t)
    (h : setstat L p m H st = (.ok (), st')) :
    (∃ new, st'.log = st.log ++ new ∧ TimesRead zone thisYear m (absolutize st.self.wrkdir p) new) ↔
      ∀ t ∈ times m, zone t.secs = some t.secs := by
  obtain ⟨hstamps, -, new, hlog, hlines, -⟩ := setstat_sent h
  have hargs := line_mem_setstatCmds hlines
  have hstamp : ∀ t, m.accessed = some t ∨ m.modified = some t → stamp L t = some (civilStamp t) := by
    intro t ht
    obtain ⟨time, htime⟩ := hstamps t ht
    rw [htime, eq_civilStamp hL htime]
  have hread : ∀ t ∈ times m, (readTouch thisYear (civilStamp t)).bind zone = zone t.secs := fun t ht => by
    rw [(readTouch_civilStamp thisYear t).1 (htaken t ht).1, Option.bind_some]
  constructor
  · rintro ⟨new', hlog', htimes⟩ t ht
    obtain rfl : new' = new := List.append_cancel_left (hlog'.symm.trans hlog)
    rw [← hread t ht]
    rcases mem_times.1 ht with ha | hm
    · refine (htimes.accessed t ha).read _ ((hargs _).1.2 ?_)
      rw [ha, Option.bind_some, hstamp t (Or.inl ha)]
    · refine (htimes.modified t hm).read _ ((hargs _).2.2 ?_)
      rw [hm, Option.bind_some, hstamp t (Or.inr hm)]
  · intro hzone
    refine ⟨new, hlog, fun t ha => ⟨⟨civilStamp t, (hargs _).1.2 ?_⟩, fun arg harg => ?_⟩,
      fun t hm => ⟨⟨civilStamp t, (hargs _).2.2 ?_⟩, fun arg harg => ?_⟩⟩
    · rw [ha, Option.bind_some, hstamp t (Or.inl ha)]
    · have harg := (hargs arg).1.1 harg
      have ht := mem_times.2 (Or.inl ha)
      rw [ha, Option.bind_some, hstamp t (Or.inl ha)] at harg
      cases harg
      rw [hread t ht, hzone t ht]
    · rw [hm, Option.bind_some, hstamp t (Or.inr hm)]
    · have harg := (hargs arg).2.1 harg
      have ht := mem_times.2 (Or.inr hm)
      rw [hm, Option.bind_some, hstamp t (Or.inr hm)] at harg
      cases harg
      rw [hread t ht, hzone t ht]

end

end

/-- On every server with this clock no run panics, and one that succeeds has passed on the times it was given. -/
def KeepsTimes (L : Libs) (zone : Int → Option Int) (thisYear : Nat) (wrkdir path : PathBuf) (m : Metadata) : Prop :=
  ∀ (σ ω : Type) (M : Sh.Machine ω) (world : σ → ω) (H : Handler Ssh σ), Hosts M world H → Clocked M zone thisYear →
    ∀ st : St Ssh ScpFs σ, st.self.wrkdir = wrkdir → Calm H (setstat L path m) st ∧
      ∀ st', setstat L path m H st = (.ok (), st') →
        ∃ new, st'.log = st.log ++ new ∧ TimesRead zone thisYear m (absolutize wrkdir path) new

/-- Everything succeeds but a `touch` whose argument is no time on the clock. -/
def clockMachine (zone : Int → Option Int) (thisYear : Nat) : Sh.Machine Unit where
  home := ['/']
  enter _ _ dir := some dir
  utility _ _ ws :=
    match ws with
    | [_, _, _, time, _] => ([], if ((readTouch thisYear time).bind zone).isSome then 0 else 1, ())
    | _ => ([], 0, ())

section
variable {zone : Int → Option Int} {thisYear : Nat}

theorem clockMachine_touch {path : PathBuf} {c : Str → ShellCmd} (hc : IsTouch path c) (time : Str) :
    (clockMachine zone thisYear).utility () (clockMachine zone thisYear).home (c time).words =
      ([], if ((readTouch thisYear time).bind zone).isSome then 0 else 1, ()) := by
  cases hc <;> rfl

theorem clockMachine_clocked : Clocked (clockMachine zone thisYear) zone thisYear where
  silent w c hc := by
    cases hc with
    | touch hc time => rw [clockMachine_touch hc]
    | _ => rfl
  touch w path c time hc hcode := by
    by_contra h
    rw [clockMachine_touch hc, if_neg h] at hcode
    cases hcode

theorem clockMachine_code (w : Unit) {c : ShellCmd} (hc : Sets c) (hno : ∀ q f time, IsTouch q f → c ≠ f time) :
    ((clockMachine zone thisYear).utility w (clockMachine zone thisYear).home c.words).2.1 = 0 := by
  cases hc with
  | touch hc time => exact absurd rfl (hno _ _ time hc)
  | _ => rfl

def clockServer (zone : Int → Option Int) (thisYear : Nat) : Handler Ssh (Unit × Str) :=
  site (clockMachine zone thisYear) (fun _ _ => .ok ⟨none, none, none, none, none, none⟩) fun w _ _ => w

theorem clockServer_serves : Serves (clockMachine zone thisYear) Prod.fst (clockServer zone thisYear) :=
  site_serves _ _ _

def clockStart (wrkdir : PathBuf) : St Ssh ScpFs (Unit × Str) :=
  ⟨⟨some ⟨0⟩, wrkdir, SshOpts.new "h".toList⟩, ((), []), []⟩

/-- **A `setstat` keeps the times exactly when none that it comes to is unknown, and the server's clock shows UTC at
each of them unless one is refused.** -/
theorem setstat_times_iff {L : Libs} {first last : Int} (hL : L.chrono.Formats first last) (zone : Int → Option Int)
    (thisYear : Nat) {wrkdir path : PathBuf} (hq : Sh.Plain (absolutize wrkdir path))
    (hq' : Sh.Plain (absolutize wrkdir (absolutize wrkdir path))) (m : Metadata) :
    KeepsTimes L zone thisYear wrkdir path m ↔
      Written first last zone (times m) ∧
        ((∀ t ∈ times m, Taken zone t) → ∀ t ∈ times m, zone t.secs = some t.secs) := by
  constructor
  · intro hkeeps
    have hserves := @clockServer_serves zone thisYear
    obtain ⟨hcalm, hread⟩ := hkeeps _ _ _ _ _ hserves.toHosts clockMachine_clocked (clockStart wrkdir) rfl
    have hsession : (clockStart wrkdir).self.session = some ⟨0⟩ := rfl
    obtain ⟨st₁, hrun, hself⟩ : ∃ st₁, setstat L path m (clockServer zone thisYear) (clockStart wrkdir) =
        touches L (touchCmds m (absolutize wrkdir path)) (clockServer zone thisYear) st₁ ∧
          st₁.self = (clockStart wrkdir).self :=
      setstat_serves hserves clockMachine_clocked (fun w c => clockMachine_code w) hq hq' hsession
    rw [← hself] at hsession
    obtain ⟨hpanics, hreturns⟩ := touches_serves hserves clockMachine_clocked hL
      (fun w path c time hc htime => by rw [clockMachine_touch hc, if_pos htime]) hq
      (fun x hx => isTouch_touchCmds (m := m) hx) hsession
    rw [map_touchCmds] at hpanics hreturns
    have hwritten : Written first last zone (times m) := by
      by_contra hw
      refine hpanics hw fun p hp => hcalm p ?_
      rw [hrun]
      exact hp
    refine ⟨hwritten, fun htaken => ?_⟩
    obtain ⟨st', hok⟩ := hreturns hwritten htaken
    have hok := hrun.trans hok
    exact (timesRead_iff hL htaken hok).1 (hread st' hok)
  · rintro ⟨hwritten, hzone⟩ σ ω M world H hH hM st rfl
    refine ⟨setstat_calm hH hM hL hq hq' hwritten, fun st' h => ?_⟩
    have htaken := setstat_taken hH hM hL hq h
    exact (timesRead_iff hL htaken h).2 (hzone htaken)

end

/-! ## A server one hour east of UTC -/

def east (shown : Int) : Option Int := some (shown - 3600)

def modifiedAt (t : SystemTime) : Metadata := { Metadata.ofSize 0 with modified := some t }

/-- A time that lies far behind the last year. -/
def farTime : SystemTime := ⟨4611686018427387904, 0, by decide, SystemTime.UNIX_EPOCH.nanos_lt⟩

theorem setstat_times_utc : KeepsTimes civilLibs some 2024 ['/'] "/a".toList (modifiedAt .UNIX_EPOCH) :=
  (setstat_times_iff civilLibs_formats some 2024 (by decide) (by decide) (modifiedAt .UNIX_EPOCH)).2
    ⟨⟨by decide +kernel, fun _ => trivial⟩, fun _ _ _ => rfl⟩

set_option maxRecDepth 20000 in
/-- The beginning of 1970 is written as an hour before it, and a far time panics. -/
theorem setstat_shifts_times :
    ¬ KeepsTimes civilLibs east 2024 ['/'] "/a".toList (modifiedAt .UNIX_EPOCH) ∧
      (setstat civilLibs "/a".toList (modifiedAt farTime) (clockServer some 2024) (clockStart ['/'])).1 =
        .panic .outOfRange := by
  refine ⟨fun hkeeps => ?_, by decide +kernel⟩
  obtain ⟨-, hread⟩ := hkeeps _ _ _ _ _ clockServer_serves.toHosts clockMachine_clocked (clockStart ['/']) rfl
  have hok : (setstat civilLibs "/a".toList (modifiedAt .UNIX_EPOCH) (clockServer east 2024) (clockStart ['/'])).1 =
      .ok () := by decide +kernel
  have hsent : (ShellCmd.touchModify "197001010000.00".toList "/a".toList).line ∈
      linesOf (setstat civilLibs "/a".toList (modifiedAt .UNIX_EPOCH) (clockServer east 2024)
        (clockStart ['/'])).2.log := by
    decide +kernel
  have hshown : (readTouch 2024 "197001010000.00".toList).bind east = some (-3600) := by decide +kernel
  obtain ⟨st', hst⟩ : ∃ st', setstat civilLibs "/a".toList (modifiedAt .UNIX_EPOCH) (clockServer east 2024)
      (clockStart ['/']) = (.ok (), st') := ⟨_, Prod.ext hok rfl⟩
  obtain ⟨new, hlog, htimes⟩ := hread st' hst
  rw [hst, hlog] at hsent
  have heast := (htimes.modified _ rfl).read _ hsent
  rw [hshown] at heast
  exact absurd heast (by decide)

end ScpFs

end RemotefsSsh
