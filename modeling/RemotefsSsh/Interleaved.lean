import RemotefsSsh.Changes
import RemotefsSsh.Lib.Interleave

/-!
# Several clients on one server (ssh/scp.rs:366-491, ssh/sftp.rs:268-326)

Between the test of an operation and its change, and between any two calls, others may have been at work. Still each
directory operation takes effect at one moment, that of its request or its command, and whoever is told that it went
well has made the change: whatever the order in which the server gets the calls, the operations of all clients
together, of either kind, are one run of changes to the tree (`clients_interleaved`). So no change is made twice:
where two clients are told that they made the same directory, it was taken away in between.

Only `rm` of `ScpFs` may be told that all went well where others have been faster, and nothing was there any more.
-/

namespace RemotefsSsh

open Utf8 UnixPath Effect Prog FileTree

/-- A server for many channels. A command is run when it is told, and whoever reads the channel gets what it printed. -/
structure Desk {σ ω : Type} (M : Sh.Machine ω) (world : σ → ω) (output : σ → Channel → Str) (H : Handler Ssh σ) :
    Prop where
  runs : ∀ ch line env s, M.runLine line (world env) = some s → (H.reply (.channelExec ch line) env).1 = .ok () →
    world (H.reply (.channelExec ch line) env).2 = s.world ∧ output (H.reply (.channelExec ch line) env).2 ch = s.out
  /-- It was run, or it was not. -/
  fails : ∀ ch line env s err, M.runLine line (world env) = some s →
    (H.reply (.channelExec ch line) env).1 = .error err →
    world (H.reply (.channelExec ch line) env).2 = world env ∨ world (H.reply (.channelExec ch line) env).2 = s.world
  reads : ∀ ch env out, (H.reply (.channelReadToString ch) env).1 = .ok out → out = output env ch
  keeps : ∀ c env ch, (∀ line, c ≠ .channelExec ch line) → output (H.reply c env).2 ch = output env ch
  opens : ∀ s env, world (H.reply (.channelSession s) env).2 = world env
  tells : ∀ ch env, world (H.reply (.channelReadToString ch) env).2 = world env
  closes : ∀ ch env, world (H.reply (.channelWaitClose ch) env).2 = world env

/-- A command that has nothing to change changes nothing. -/
structure SharesTree {ω α : Type} (M : Sh.Machine ω) (files : ω → Tree Str α) : Prop extends ChangesTree M files where
  otherwise : ∀ c kind p w, ShellCmd.change? c = some (kind, p) → isAbsolute p = true →
    ¬ Does kind (files w) p (decide ((M.utility w M.home c.words).2.1 = 0)) (files (M.utility w M.home c.words).2.2) →
      files (M.utility w M.home c.words).2.2 = files w

/-! ## The calls of one client -/

/-- What changes nothing in the tree. -/
def Waits : SshCall → Prop
  | .channelSession _ | .channelReadToString _ | .channelWaitClose _ => True
  | .channelExec _ line => ∃ p, isAbsolute p = true ∧ Sh.Plain p ∧ line = (ShellCmd.existsPath p).line
  | c => Idle c

theorem waits_of_idle (c : SshCall) (h : Idle c) : Waits c := by
  cases c <;> first | exact h | exact h.elim

/-- A request about `p`, and whether it was acknowledged. -/
inductive Requests : ChangeKind → PathBuf → Bool → Sigma SshCall.Reply → Prop
  | mkdir {f : SshSftp} {p : PathBuf} {mode : UInt32} {r : Except SshError Unit} :
      Requests .mkdir p r.isOk ⟨.mkdir f p mode, r⟩
  | unlink {f : SshSftp} {p : PathBuf} {r : Except SshError Unit} : Requests .unlink p r.isOk ⟨.unlink f p, r⟩
  | rmdir {f : SshSftp} {p : PathBuf} {r : Except SshError Unit} : Requests .rmdir p r.isOk ⟨.rmdir f p, r⟩

/-- What an operation does for its caller, who is told `d.2`. A command went well if the status that is read behind it
is 0. -/
inductive Acts (scp : Bool) (wd : PathBuf) (d : Ask × Bool) : Sigma SshCall.Reply → List (Sigma SshCall.Reply) → Prop
  | request {kind : ChangeKind} {e : Sigma SshCall.Reply} {rest : List (Sigma SshCall.Reply)} : d.1.kind = some kind →
      Requests kind (absolutize wd d.1.path) d.2 e → Acts scp wd d e rest
  | command {kind : ChangeKind} {cmd : ShellCmd} {ch : Channel} {r : Except SshError Unit}
    {rest : List (Sigma SshCall.Reply)} : scp = true → d.1.kind = some kind →
      cmd.change? = some (kind, absolutize wd d.1.path) → Sh.Plain (absolutize wd d.1.path) →
      (d.2 = true → ∃ out x rest', r = .ok () ∧ rest = ⟨.channelReadToString ch, .ok out⟩ :: rest' ∧
        rcOfOutput out = .ok (0, x)) →
      Acts scp wd d ⟨.channelExec ch cmd.line, r⟩ rest

/-- It asks for no change, or is refused. -/
def Refrains (d : Ask × Bool) : Prop := d.1.kind = none ∨ d.2 = false

/-- What the operations of a client in `wd` have to show for what they are told. -/
abbrev Done (scp : Bool) (wd : PathBuf) : List (Ask × Bool) → List (Sigma SshCall.Reply) → Prop :=
  Jobs (F := Ssh) Waits (Acts scp wd) Refrains

theorem Acts.more {scp : Bool} {wd : PathBuf} (d : Ask × Bool) (e : Sigma SshCall.Reply)
    (es es' : List (Sigma SshCall.Reply))
    (h : Acts scp wd d e es) : Acts scp wd d e (es ++ es') := by
  cases h with
  | request hkind hreq => exact .request hkind hreq
  | command hscp hkind hchange hplain hok =>
    refine .command hscp hkind hchange hplain fun hd => ?_
    obtain ⟨out, x, rest, hr, rfl, hrc⟩ := hok hd
    exact ⟨out, x, rest ++ es', hr, rfl, hrc⟩

section
variable {κ σ R : Type} {H : Handler Ssh σ} {k : κ} {log₀ : List (Sigma SshCall.Reply)} {scp : Bool}
    {wd : PathBuf} {a : Ask}
  {Q : R → St Ssh κ σ → Prop} {E : Option RemoteError → St Ssh κ σ → Prop}

/-- Nothing but looking so far, on the record `k`. -/
def Looking (k : κ) (log₀ : List (Sigma SshCall.Reply)) (st : St Ssh κ σ) : Prop :=
  st.self = k ∧ Since log₀ (fun es => ∀ e ∈ es, Waits e.1) st

/-- The operation `a` is over. -/
def Over (scp : Bool) (wd : PathBuf) (k : κ) (log₀ : List (Sigma SshCall.Reply)) (a : Ask) (ok : Bool)
    (st : St Ssh κ σ) : Prop :=
  st.self = k ∧ Since log₀ (Done scp wd [(a, ok)]) st

theorem Looking.over {ok : Bool} {st : St Ssh κ σ} (h : Looking k log₀ st) (hfree : Refrains (a, ok)) :
    Over scp wd k log₀ a ok st := by
  refine ⟨h.1, h.2.imp fun es hes => ?_⟩
  have hjobs : Done scp wd [(a, ok)] (es ++ []) := .waits hes (.free hfree .nil)
  rwa [List.append_nil] at hjobs

theorem Looking.refused {st : St Ssh κ σ} (h : Looking k log₀ st) : Over scp wd k log₀ a false st := h.over (Or.inr rfl)

theorem looking_only {m : Remote κ σ R} (hm : Only Waits m) :
    Triple H (Looking k log₀) m (fun _ => Looking k log₀) fun _ => Looking k log₀ := by
  refine hm.triple fun c hc st h => ⟨h.1, h.2.asked H c fun es hes e he => ?_⟩
  rcases List.mem_append.1 he with he | he
  · exact hes e he
  · rw [List.mem_singleton.1 he]
    exact hc

theorem looking_over {m : Remote κ σ R} (hm : Only Waits m) :
    Triple H (Looking k log₀) m (fun _ => Looking k log₀) fun _ => Over scp wd k log₀ a false :=
  (looking_only hm).conseq (fun _ h => h) (fun _ _ h => h) fun _ _ h => h.refused

theorem looking_self {f : κ → Remote κ σ R} (h : Triple H (Looking k log₀) (f k) Q E) :
    Triple H (Looking k log₀) (Prog.self >>= f) Q E :=
  .self fun k' => Triple.pre (.given (p := k' = k) fun hk => hk ▸ h) fun _ h => ⟨h.2.symm.trans h.1.1, h.1⟩

/-- A command was told, with this answer, and the rest followed. -/
def Began (k : κ) (log₀ : List (Sigma SshCall.Reply)) (ch : Channel) (line : Str) (r : Except SshError Unit)
    (rest : List (Sigma SshCall.Reply)) (st : St Ssh κ σ) : Prop :=
  st.self = k ∧ Since log₀ (fun es => ∃ looks, (∀ e ∈ looks, Waits e.1) ∧
    es = looks ++ ⟨.channelExec ch line, r⟩ :: rest) st

theorem looking_began {ch : Channel} {line : Str} :
    Triple H (Looking k log₀) (ask (.channelExec ch line) : Remote κ σ _)
    (fun r => Began k log₀ ch line r []) E := by
  exact .call fun st h => ⟨h.1, h.2.asked H _ fun es hes => ⟨es, hes, rfl⟩⟩

theorem began_call {ch : Channel} {line : Str} {r : Except SshError Unit}
    {rest : List (Sigma SshCall.Reply)} (c : SshCall) :
    Triple H (Began k log₀ ch line r rest) (ask c : Remote κ σ _)
      (fun x => Began k log₀ ch line r (rest ++ [⟨c, x⟩])) E := by
  refine .call fun st h => ⟨h.1, h.2.asked H c ?_⟩
  rintro es ⟨looks, hlooks, rfl⟩
  exact ⟨looks, hlooks, by rw [List.append_assoc, List.cons_append]⟩

variable {kind : ChangeKind} {cmd : ShellCmd} (hkind : a.kind = some kind)
  (hchange : cmd.change? = some (kind, absolutize wd a.path)) (hplain : Sh.Plain (absolutize wd a.path))
include hkind hchange hplain

theorem Began.over {ch : Channel} {r : Except SshError Unit} {rest : List (Sigma SshCall.Reply)}
    {ok : Bool} {st : St Ssh κ σ}
    (h : Began k log₀ ch cmd.line r rest st) (hrest : ∀ e ∈ rest, Waits e.1)
    (hok : ok = true → ∃ out x rest', r = .ok () ∧
      rest = ⟨.channelReadToString ch, .ok out⟩ :: rest' ∧ rcOfOutput out = .ok (0, x)) :
        Over true wd k log₀ a ok st := by
  refine ⟨h.1, h.2.imp ?_⟩
  rintro es ⟨looks, hlooks, rfl⟩
  have hjobs : Done true wd [] (rest ++ []) := .waits hrest .nil
  rw [List.append_nil] at hjobs
  exact .waits hlooks (.act (.command rfl hkind hchange hplain hok) hjobs)

/-- A command that is run for its exit code, from the channel to the code. -/
theorem command_over (session : SshSession) : Triple H (Looking k log₀)
    (performShellCmdWithRc session cmd.text : Remote κ σ _)
    (fun r => Over true wd k log₀ a (decide (r.1 = 0))) fun _ => Over true wd k log₀ a false := by
  have hrc : cmd.withRc = true := by cases cmd <;> first | rfl | cases hchange
  have hover := @Began.over κ σ k log₀ wd a kind cmd hkind hchange hplain
  unfold performShellCmdWithRc
  rw [ShellCmd.line_of_withRc hrc]
  refine .bind (Q := fun out st => ∃ ch x, Began k log₀ ch cmd.line (.ok ())
    [⟨.channelReadToString ch, .ok out⟩, ⟨.channelWaitClose ch, x⟩] st) ?_ fun out => ?_
  · refine .bind (looking_over (.call trivial)) fun r => ?_
    cases r with
    | error err => exact .throw fun _ h => h.refused
    | ok ch =>
      refine .bind looking_began fun r => ?_
      cases r with
      | error err => exact .throw fun _ h => hover h (by simp) (by simp)
      | ok _ =>
        refine .bind (began_call _) fun r => ?_
        cases r with
        | error err => exact .throw fun _ h => hover h (by simp [Waits]) (by simp)
        | ok out => exact .bind (began_call _) fun x => .pure fun _ h => ⟨ch, x, h⟩
  · refine .exists_pre fun ch => .exists_pre fun x => ?_
    constructor
    · intro st r st' h hr
      have hout : rcOfOutput out = .ok r := congrArg Prod.fst hr
      obtain rfl : st = st' := congrArg Prod.snd hr
      refine hover h (by simp [Waits]) fun hzero => ?_
      obtain ⟨rc, text⟩ := r
      obtain rfl := of_decide_eq_true hzero
      exact ⟨out, text, _, rfl, rfl, hout⟩
    · intro st o st' h hr _
      obtain rfl : st = st' := congrArg Prod.snd hr
      exact hover h (by simp [Waits]) (by simp)

end

/-! ### The SCP client -/

/-- The tests of plain paths. -/
def waiting : Scope := .running Idle fun c => ∃ p, isAbsolute p = true ∧ Sh.Plain p ∧ c = .existsPath p

theorem waiting_tests (hs : Handles) : waiting.Tests hs :=
  ⟨⟨fun _ _ => trivial, fun _ _ _ => trivial, fun _ _ _ => trivial⟩, fun _ _ => trivial⟩

theorem waiting_makes {c : SshCall} (h : waiting.Makes c) : Waits c := by
  cases h with
  | call hc => exact waits_of_idle c hc
  | channelExec hcmd =>
    obtain ⟨p, habs, hp, rfl⟩ := hcmd
    exact ⟨p, habs, hp, rfl⟩
  | move hsteps _ => cases hsteps
  | _ => trivial

namespace ScpFs

section
variable {σ R : Type} {H : Handler Ssh σ} {k : ScpFs} {log₀ : List (Sigma SshCall.Reply)} {a : Ask} {kind : ChangeKind}
  {cmd : ShellCmd}

theorem waiting_over {b : Bool} {Q : R → Prop} {m : Remote ScpFs σ R}
    (hm : Built (Piece waiting) True Refused k b [] Q m) :
    Triple H (Looking k log₀) m (fun _ => Looking k log₀) fun _ => Over true k.wrkdir k log₀ a false := by
  have hlooking := hm.invariant (H := H) (I := Looking k log₀) (fun _ h => h.1) fun _ _ _ _ h =>
    ⟨looking_only (h.only.mono fun _ => waiting_makes), h.value⟩
  exact hlooking.conseq (fun _ h => h) (fun _ _ h => h.2) fun _ _ h => h.refused

theorem runRc_over (hkind : a.kind = some kind) (hchange : cmd.change? = some (kind, absolutize k.wrkdir a.path))
    (hplain : Sh.Plain (absolutize k.wrkdir a.path)) (bad : RemoteError) (ekind : RemoteErrorType) :
    Triple H (Looking k log₀) (runRc cmd bad ekind : Remote ScpFs σ _) (fun _ => Over true k.wrkdir k log₀ a true)
      fun _ => Over true k.wrkdir k log₀ a false := by
  refine looking_self (.unwrap (fun _ _ h => h.refused) fun session _ => ?_)
  refine .bind (Q := Answered (fun r => Over true k.wrkdir k log₀ a (decide (r.1 = 0))) fun _ =>
    Over true k.wrkdir k log₀ a false)
    (.attempt (command_over hkind hchange hplain session) (fun _ _ h => h) fun _ h => h) fun r => ?_
  cases r with
  | error err => exact .throw fun _ h => h
  | ok r =>
    obtain ⟨rc, out⟩ := r
    refine .ite (fun hrc => .pure fun _ h => ?_) fun hrc => .throw fun _ h => ?_
    · rwa [Answered, decide_eq_true hrc] at h
    · rwa [Answered, decide_eq_false hrc] at h

/-- **A directory operation looks, then runs at most one command**, and is told by its exit code. -/
theorem run_over (L : Libs) (op : ScpTreeOp) (hw : isAbsolute k.wrkdir = true)
    (hplain : Sh.Plain (absolutize k.wrkdir op.ask.path)) :
    Triple H (Looking k log₀) (op.1.run L : Remote ScpFs σ Unit) (fun _ => Over true k.wrkdir k log₀ op.ask true)
      fun _ => Over true k.wrkdir k log₀ op.ask false := by
  obtain ⟨op, hop⟩ := op
  have hgate : ∀ {a : Ask}, Triple H (Looking k log₀) (checkConnection : Remote ScpFs σ Unit) (fun _ => Looking k log₀)
      fun _ => Over true k.wrkdir k log₀ a false := waiting_over (checkConnection_built (waiting_tests _).toSees)
  have hexists : ∀ {path : PathBuf} {a : Ask}, Sh.Plain (absolutize k.wrkdir path) → Triple H (Looking k log₀)
      (existsOrFalse (absolutize k.wrkdir path) : Remote ScpFs σ Bool) (fun _ => Looking k log₀)
      fun _ => Over true k.wrkdir k log₀ a false := by
    intro path a hp
    have habs := isAbsolute_absolutize hw path
    refine waiting_over (b := true) (existsOrFalse_built (waiting_tests _) ⟨absolutize k.wrkdir path, habs, hp, ?_⟩)
    exact congrArg ShellCmd.existsPath (if_pos habs)
  cases op with
  | existsPath path =>
    exact .bind (waiting_over (existsPath_built (waiting_tests _) ⟨_, isAbsolute_absolutize hw path, hplain, rfl⟩))
      fun b => .pure fun _ h => h.over (Or.inl rfl)
  | createDir path mode =>
    refine .bind hgate fun _ => looking_self (.bind (hexists hplain) fun b => ?_)
    exact .ite (fun _ => .throw fun _ h => h.refused) fun _ => runRc_over rfl rfl hplain _ _
  | removeFile path | removeDir path | removeDirAll path =>
    refine .bind hgate fun _ => looking_self (.bind (hexists hplain) fun b => ?_)
    exact .ite (fun _ => runRc_over rfl rfl hplain _ _) fun _ => .throw fun _ h => h.refused
  | _ => cases hop

end

end ScpFs

/-! ### The SFTP client -/

namespace SftpFs

section
variable {σ R : Type} {H : Handler Ssh σ} {k : SftpFs} {log₀ : List (Sigma SshCall.Reply)} {a : Ask}

theorem idle_over {m : Remote SftpFs σ R} (hm : Only Idle m) :
    Triple H (Looking k log₀) m (fun _ => Looking k log₀) fun _ => Over false k.wrkdir k log₀ a false :=
  looking_over (hm.mono waits_of_idle)

theorem asked_over {c : SshCall} {kind : ChangeKind} {ok : Bool} {st : St Ssh SftpFs σ} (h : Looking k log₀ st)
    (hkind : a.kind = some kind) (hreq : Requests kind (absolutize k.wrkdir a.path) ok ⟨c, (H.reply c st.env).1⟩) :
    Over false k.wrkdir k log₀ a ok (Effect.asked H c st) := by
  exact ⟨h.1, h.2.asked H c fun es hes => .waits hes (.act (.request hkind hreq) .nil)⟩

/-- The answer of the request is what the operation returns. -/
theorem orKind_over {P : St Ssh SftpFs σ → Prop} {m : Remote SftpFs σ (Except SshError Unit)} (ekind : RemoteErrorType)
    (hm : ∀ {E : Option RemoteError → St Ssh SftpFs σ → Prop},
      Triple H P m (fun r => Over false k.wrkdir k log₀ a r.isOk) E) :
    Triple H P (orKind ekind m) (fun _ => Over false k.wrkdir k log₀ a true) fun _ =>
      Over false k.wrkdir k log₀ a false := by
  refine .bind hm fun r => ?_
  cases r with
  | ok _ => exact .pure fun _ h => h
  | error e => exact .throw fun _ h => h

theorem withSftp_over {op : SshSftp → PathBuf → Remote SftpFs σ Unit}
    (hop : ∀ f, Triple H (Looking k log₀) (op f (absolutize k.wrkdir a.path))
      (fun _ => Over false k.wrkdir k log₀ a true)
      fun _ => Over false k.wrkdir k log₀ a false) :
    Triple H (Looking k log₀) (withSftp a.path op) (fun _ => Over false k.wrkdir k log₀ a true)
      fun _ => Over false k.wrkdir k log₀ a false := by
  refine looking_self ?_
  cases k.sftp with
  | none => exact .throw fun _ h => h.refused
  | some f => exact looking_self (hop f)

/-- **A directory operation looks, then makes at most one request**, whose answer it returns. -/
theorem run_over (op : SftpTreeOp) : Triple H (Looking k log₀) (op.1.run : Remote SftpFs σ Unit)
    (fun _ => Over false k.wrkdir k log₀ op.ask true) fun _ => Over false k.wrkdir k log₀ op.ask false := by
  obtain ⟨op, hop⟩ := op
  cases op with
  | existsPath path => exact .bind (idle_over (existsPath_only path)) fun b => .pure fun st h => h.over (Or.inl rfl)
  | createDir path mode =>
    refine .bind (idle_over checkConnection_only) fun _ =>
      looking_self (.bind (idle_over (existsPath_only _)) fun b => ?_)
    refine .ite (fun _ => .throw fun _ h => h.refused) fun _ => looking_self ?_
    refine .unwrap (fun _ _ h => h.refused) fun f _ => orKind_over _ (.call fun st h => asked_over h rfl ?_)
    exact .mkdir
  | removeFile path =>
    show Triple H _ (withSftp path fun f p => orKind .couldNotRemoveFile (ask (.unlink f p))) _ _
    refine withSftp_over (a := ⟨some .unlink, path⟩) fun f => orKind_over _ (.call fun st h => asked_over h rfl ?_)
    exact .unlink
  | removeDir path =>
    show Triple H _ (withSftp path fun f p => orKind .couldNotRemoveFile (ask (.rmdir f p))) _ _
    refine withSftp_over (a := ⟨some .rmdir, path⟩) fun f => orKind_over _ (.call fun st h => asked_over h rfl ?_)
    exact .rmdir
  | _ => cases hop

end

end SftpFs

/-! ### Runs -/

/-- The log of a run of operations that each end so. -/
theorem runAll_done {κ σ Op : Type} {H : Handler Ssh σ} {run : Op → Remote κ σ Unit} {ask : Op → Ask} {scp : Bool}
    {wd : PathBuf} {k : κ} {ops : List Op} (hops : ∀ op ∈ ops, ∀ log₀,
      Triple H (Looking k log₀) (run op) (fun _ => Over scp wd k log₀ (ask op) true)
      fun _ => Over scp wd k log₀ (ask op) false) {st : St Ssh κ σ} (hk : st.self = k) :
    ∃ es, (runAll H run ops st).log = st.log ++ es ∧ Done scp wd (told H run ask ops st) es := by
  induction ops generalizing st with
  | nil => exact since_self .nil
  | cons op ops ih =>
    have hstart : Looking k st.log st := ⟨hk, since_self (by simp)⟩
    have hover : Over scp wd k st.log (ask op) (run op H st).1.isOk (run op H st).2 :=
      (hops op List.mem_cons_self st.log).isOk (S := Over scp wd k st.log (ask op)) hstart
    obtain ⟨hself, es, hlog, hdone⟩ := hover
    obtain ⟨es', hlog', hdone'⟩ := ih (fun op' h => hops op' (List.mem_cons_of_mem op h)) hself
    exact ⟨es ++ es', by rw [← List.append_assoc, ← hlog]; exact hlog', hdone.append Acts.more hdone'⟩

/-! ## What a server makes of the calls -/

/-- What an operation may have done that is told `d.2`. -/
def Told {ι α : Type} (scp : ι → Bool) (wd : ι → PathBuf) (d : ι × Ask × Bool) (t t' : Tree Str α) : Prop :=
  ∃ kind, d.2.1.kind = some kind ∧ (Does kind t (absolutize (wd d.1) d.2.1.path) d.2.2 t' ∨
    (scp d.1 = true ∧ (kind = .unlink ∨ kind = .prune) ∧ ¬ Leads t (absolutize (wd d.1) d.2.1.path) ∧ t' = t))

theorem calls_change {ω α : Type} {M : Sh.Machine ω} {files : ω → Tree Str α}
    (hM : ChangesTree M files) {cmd : ShellCmd}
    {kind : ChangeKind} {p : PathBuf} (hchange : cmd.change? = some (kind, p)) (hp : Sh.Plain p) : cmd.Calls M := by
  have hsilent : ∀ w, (M.utility w M.home cmd.words).1 = [] := fun w => hM.silent _ _ w hchange
  cases cmd <;> cases hchange <;> exact ShellCmd.calls rfl trivial (ShellCmd.plain_one hp) hsilent

section
variable {ι σ ω α : Type} {M : Sh.Machine ω} {world : σ → ω} {output : σ → Channel → Str} {files : ω → Tree Str α}
  {H : Handler Ssh σ} (hD : Desk M world output H) (hM : SharesTree M files)
  (hS : ServesChanges (fun env => files (world env)) H)
include hD hM

theorem Desk.waits (hidle : ∀ c env, Idle c → files (world (H.reply c env).2) = files (world env))
    (c : SshCall) (env : σ)
    (h : Waits c) : files (world (H.reply c env).2) = files (world env) := by
  cases c with
  | channelSession s => rw [hD.opens]
  | channelReadToString ch => rw [hD.tells]
  | channelWaitClose ch => rw [hD.closes]
  | channelExec ch line =>
    obtain ⟨p, habs, hp, rfl⟩ := h
    obtain ⟨s, hrun, -, hworld⟩ := (ScpFs.calls_test hM.toChangesTree hp).runLine (world env)
    rw [hM.existsPath_same] at hworld
    cases hr : (H.reply (.channelExec ch (ShellCmd.existsPath p).line) env).1 with
    | ok _ => rw [(hD.runs ch _ env s hrun hr).1, hworld]
    | error err =>
      rcases hD.fails ch _ env s err hrun hr with h | h
      · rw [h]
      · rw [h, hworld]
  | _ => exact hidle _ env h

/-- A command, and what is read of its channel later on. -/
theorem Desk.command [DecidableEq ι] {scp : ι → Bool} {wd : ι → PathBuf} {i : ι} {d : Ask × Bool} {kind : ChangeKind}
    {cmd : ShellCmd} {ch : Channel} {s s' : σ} {rest : List (ι × Sigma SshCall.Reply)}
    (hrest : Attended H (H.reply (.channelExec ch cmd.line) s).2 rest s')
    (hown : ∀ k line r, (k, (⟨.channelExec ch line, r⟩ : Sigma SshCall.Reply)) ∈ rest → k = i) (hscp : scp i = true)
    (hkind : d.1.kind = some kind) (habs : isAbsolute (wd i) = true)
    (hchange : cmd.change? = some (kind, absolutize (wd i) d.1.path)) (hplain : Sh.Plain (absolutize (wd i) d.1.path))
    (hok : d.2 = true → ∃ out x rest', (H.reply (.channelExec ch cmd.line) s).1 = .ok () ∧
      part i rest = ⟨.channelReadToString ch, .ok out⟩ :: rest' ∧ rcOfOutput out = .ok (0, x)) :
    Told scp wd (i, d) (files (world s)) (files (world (H.reply (.channelExec ch cmd.line) s).2)) := by
  have hcalls := calls_change hM.toChangesTree hchange hplain
  obtain ⟨sh, hrun, hout, hworld⟩ := hcalls.runLine (world s)
  have habs' := isAbsolute_absolutize habs d.1.path
  refine ⟨kind, hkind, ?_⟩
  by_cases hdoes : Does kind (files (world s)) (absolutize (wd i) d.1.path)
      (decide ((M.utility (world s) M.home cmd.words).2.1 = 0)) (files (M.utility (world s) M.home cmd.words).2.2)
  · left
    cases hr : (H.reply (.channelExec ch cmd.line) s).1 with
    | error err =>
      have hd : d.2 = false := Bool.eq_false_iff.2 fun hd => by
        obtain ⟨_, _, _, hr', -⟩ := hok hd
        rw [hr] at hr'
        cases hr'
      rw [hd]
      rcases hD.fails ch _ s sh err hrun hr with h | h
      · rw [h]
        exact .nothing
      · rw [h, hworld]
        exact hdoes.lost
    | ok _ =>
      obtain ⟨hw, ho⟩ := hD.runs ch _ s sh hrun hr
      rw [hw, hworld]
      cases hd : d.2 with
      | false => exact hdoes.lost
      | true =>
        obtain ⟨out, x, rest', -, hpart, hrc⟩ := hok hd
        -- nobody else has run a command on this channel
        obtain ⟨s₁, hs₁, hread⟩ := hrest.first hpart (P := fun env => output env ch = sh.out) ho
          fun k e env hmem hk henv => by
          rw [hD.keeps e.1 env ch fun line he => hk ?_]
          · exact henv
          · obtain ⟨c, r⟩ := e
            obtain rfl : c = .channelExec ch line := he
            exact hown k line r hmem
        have hstatus := hD.reads ch s₁ out hread
        rw [hs₁, hout] at hstatus
        rw [hstatus, rcOfOutput_framed_blank blank_nil] at hrc
        have hzero : (M.utility (world s) M.home cmd.words).2.1.toUInt32 = 0 := by
          injection hrc with hrc
          exact congrArg Prod.fst hrc
        rwa [decide_eq_true (toUInt32_eq_zero_iff.1 hzero)] at hdoes
  · have hsame := hM.otherwise cmd kind _ (world s) hchange habs' hdoes
    have hstill : files (world (H.reply (.channelExec ch cmd.line) s).2) = files (world s) := by
      cases hr : (H.reply (.channelExec ch cmd.line) s).1 with
      | error err =>
        rcases hD.fails ch _ s sh err hrun hr with h | h
        · rw [h]
        · rw [h, hworld, hsame]
      | ok _ => rw [(hD.runs ch _ s sh hrun hr).1, hworld, hsame]
    rcases hM.changes cmd kind _ (world s) hchange habs' with h | ⟨hgone, hno⟩
    · exact absurd h hdoes
    · exact Or.inr ⟨hscp, hgone, hno, hstill⟩

omit hD hM in
include hS in
theorem Requests.does {kind : ChangeKind} {p : PathBuf} {ok : Bool} {c : SshCall} {s : σ} (habs : isAbsolute p = true)
    (h : Requests kind p ok ⟨c, (H.reply c s).1⟩) :
    Does kind (files (world s)) p ok (files (world (H.reply c s).2)) := by
  generalize hr : (H.reply c s).1 = r at h
  cases h with
  | mkdir => exact hr ▸ hS.mkdir _ _ _ s habs
  | unlink => exact hr ▸ hS.unlink _ _ s habs
  | rmdir => exact hr ▸ hS.rmdir _ _ s habs

end

/-! ## All clients together -/

/-- A client with what it is to do, as it sees the server: the answers come from an environment of its own. -/
inductive Party where
  | scp (State : Type) (H : Handler Ssh State) (env : State) (L : Libs) (fs : ScpFs) (ops : List ScpTreeOp)
  | sftp (State : Type) (H : Handler Ssh State) (env : State) (fs : SftpFs) (ops : List SftpTreeOp)

namespace Party

def isScp : Party → Bool
  | scp .. => true
  | sftp .. => false

def wrkdir : Party → PathBuf
  | scp _ _ _ _ fs _ => fs.wrkdir
  | sftp _ _ _ fs _ => fs.wrkdir

/-- What it asks and is answered. -/
def log : Party → List (Sigma SshCall.Reply)
  | scp _ H env L fs ops => (runAll H (fun op : ScpTreeOp => op.1.run L) ops ⟨fs, env, []⟩).log
  | sftp _ H env fs ops => (runAll H (fun op : SftpTreeOp => op.1.run) ops ⟨fs, env, []⟩).log

/-- What its caller is told. -/
def told : Party → List (Ask × Bool)
  | scp _ H env L fs ops => RemotefsSsh.told H (fun op => op.1.run L) ScpTreeOp.ask ops ⟨fs, env, []⟩
  | sftp _ H env fs ops => RemotefsSsh.told H (fun op => op.1.run) SftpTreeOp.ask ops ⟨fs, env, []⟩

/-- The shell reads its paths as they are. -/
def Plain : Party → Prop
  | scp _ _ _ _ fs ops => ∀ op ∈ ops, Sh.Plain (absolutize fs.wrkdir op.ask.path)
  | sftp .. => True

theorem log_done (c : Party) (hw : isAbsolute c.wrkdir = true) (hp : c.Plain) : Done c.isScp c.wrkdir c.told c.log := by
  cases c with
  | scp State H env L fs ops =>
    have hops : ∀ op ∈ ops, ∀ log₀, Triple H (Looking fs log₀) (op.1.run L)
      (fun _ => Over true fs.wrkdir fs log₀ op.ask true)
        fun _ => Over true fs.wrkdir fs log₀ op.ask false := fun op hop _ => ScpFs.run_over L op hw (hp op hop)
    have hstart : (⟨fs, env, []⟩ : St Ssh ScpFs State).self = fs := rfl
    obtain ⟨es, hlog, hdone⟩ := runAll_done hops hstart
    rw [log, hlog]
    exact hdone
  | sftp State H env fs ops =>
    have hops : ∀ op ∈ ops, ∀ log₀, Triple H (Looking fs log₀) op.1.run
      (fun _ => Over false fs.wrkdir fs log₀ op.ask true)
        fun _ => Over false fs.wrkdir fs log₀ op.ask false := fun op _ _ => SftpFs.run_over op
    have hstart : (⟨fs, env, []⟩ : St Ssh SftpFs State).self = fs := rfl
    obtain ⟨es, hlog, hdone⟩ := runAll_done hops hstart
    rw [log, hlog]
    exact hdone

end Party

/-- Asked one after another, each from its own working directory, the clients make these changes. -/
inductive Joint {ι α : Type} (scp : ι → Bool) (wd : ι → PathBuf) :
    Tree Str α → List (ι × (Ask × Bool) × Option (Change Str)) → Tree Str α → Prop
  | nil {t : Tree Str α} : Joint scp wd t [] t
  | change {t t₁ t' : Tree Str α} {i : ι} {a : Ask} {kind : ChangeKind} {e : Place Str} {n : Str} {ok : Bool}
      {ds : List (ι × (Ask × Bool) × Option (Change Str))} :
      a.kind = some kind → EntryAt t (steps (absolutize (wd i) a.path)) e n →
      Change.Outcome t ⟨kind, e ++ [n]⟩ ok t₁ → Joint scp wd t₁ ds t' →
        Joint scp wd t ((i, (a, ok), some ⟨kind, e ++ [n]⟩) :: ds) t'
  /-- Others have been faster, and `rm -f` does not mind. -/
  | gone {t t' : Tree Str α} {i : ι} {a : Ask} {kind : ChangeKind} {ok : Bool}
      {ds : List (ι × (Ask × Bool) × Option (Change Str))} :
      scp i = true → a.kind = some kind → kind = .unlink ∨ kind = .prune → ¬ Leads t (absolutize (wd i) a.path) →
      Joint scp wd t ds t' → Joint scp wd t ((i, (a, ok), none) :: ds) t'

/-- The changes, and whether they were acknowledged. -/
def changesOf {ι : Type} (ds : List (ι × (Ask × Bool) × Option (Change Str))) : List (Change Str × Bool) :=
  ds.filterMap fun d => d.2.2.map fun c => (c, d.2.1.2)

/-- What all clients have done together. -/
structure Concerted {ι α : Type} [DecidableEq ι] (scp : ι → Bool) (wd : ι → PathBuf) (t : Tree Str α)
    (told : ι → List (Ask × Bool)) (ds : List (ι × (Ask × Bool) × Option (Change Str))) (t' : Tree Str α) : Prop where
  joint : Joint scp wd t ds t'
  /-- Each client's own are there in its order, those that were acknowledged all of them. -/
  own : ∀ i, Thinned Refrains (told i) ((part i ds).map Prod.fst)
  closed : Closed t'
  kept : ∀ q, (∀ e ∈ changesOf ds, ¬ e.1.Touches q) → t' q = t q
  /-- Whoever is told so, the same change is not made again unless another one touched the place in between. -/
  once : ∀ ds₁ ds₂ ds₃ i j a b c, ds = ds₁ ++ (i, (a, true), some c) :: ds₂ ++ (j, (b, true), some c) :: ds₃ →
    ∃ e ∈ changesOf ds₂, e.1.Touches c.place

section
variable {ι α : Type} {scp : ι → Bool} {wd : ι → PathBuf} {t t' : Tree Str α}

theorem Joint.run {ds : List (ι × (Ask × Bool) × Option (Change Str))} (h : Joint scp wd t ds t') :
    FileTree.Run t (changesOf ds) t' := by
  induction h with
  | nil => rfl
  | change _ _ hstep _ ih => exact ⟨_, hstep, ih⟩
  | gone _ _ _ _ _ ih => exact ih

theorem Joint.concerted [DecidableEq ι] {told : ι → List (Ask × Bool)}
    {ds : List (ι × (Ask × Bool) × Option (Change Str))}
    (h : Joint scp wd t ds t') (hown : ∀ i, Thinned Refrains (told i) ((part i ds).map Prod.fst)) (hc : Closed t) :
    Concerted scp wd t told ds t' where
  joint := h
  own := hown
  closed := h.run.closed hc
  kept q hq := h.run.kept hq
  once ds₁ ds₂ ds₃ i j a b c hds := by
    have hrun := h.run
    rw [hds, changesOf, List.filterMap_append, List.filterMap_append] at hrun
    exact Run.once hrun

/-- Requests that were denied have changed nothing. -/
theorem chain_joint [DecidableEq ι] {ds : List (ι × Ask × Bool)} (h : Chain (Told scp wd) t ds t') :
    ∃ ds', Joint scp wd t ds' t' ∧ ∀ i, Thinned Refrains (part i ds) ((part i ds').map Prod.fst) := by
  induction ds generalizing t with
  | nil =>
    obtain rfl : t' = t := h
    exact ⟨[], .nil, fun _ => .nil⟩
  | cons d ds ih =>
    obtain ⟨k, a, ok⟩ := d
    obtain ⟨t₁, ⟨kind, hkind, htold⟩, hrest⟩ := h
    obtain ⟨ds', hjoint, hown⟩ := ih hrest
    have hkeep : ∀ c i, Thinned Refrains (part i ((k, a, ok) :: ds))
      ((part i ((k, (a, ok), c) :: ds')).map Prod.fst) := by
      intro c i
      by_cases hi : k = i
      · rw [← hi, part_cons_self, part_cons_self]
        exact .keep (hown k)
      · rw [part_cons_of_ne hi, part_cons_of_ne hi]
        exact hown i
    rcases htold with (⟨hok, ht⟩ | ⟨e, n, hentry, hout⟩) | ⟨hscp, hgone, hno, ht⟩
    · rw [ht] at hjoint
      refine ⟨ds', hjoint, fun i => ?_⟩
      by_cases hi : k = i
      · rw [← hi, part_cons_self]
        exact .drop (Or.inr hok) (hown k)
      · rw [part_cons_of_ne hi]
        exact hown i
    · exact ⟨_, .change hkind hentry hout hjoint, hkeep _⟩
    · rw [ht] at hjoint
      exact ⟨_, .gone hscp hkind hgone hno hjoint, hkeep _⟩

end

namespace SampleDirs

/-- The server, with its channels apart. -/
def desk : Handler Ssh (SampleDirs × (Channel → Str)) where
  reply
    | .channelExec ch line, (w, out) =>
      (.ok (), ((machine.runLine line w).map fun s => (s.world, Function.update out ch s.out)).getD (w, out))
    | .channelReadToString ch, (w, out) => (.ok (out ch), (w, out))
    | c, (w, out) => ((server.reply c (w, [])).1, (server.reply c (w, [])).2.1, out)

theorem desk_desk : Desk machine Prod.fst Prod.snd desk where
  runs ch line env s hrun _ := by
    have hrun : machine.runLine line env.1 = some s := hrun
    have hreply : (desk.reply (.channelExec ch line) env).2 = (s.world, Function.update env.2 ch s.out) := by
      show ((machine.runLine line env.1).map fun s => (s.world, Function.update env.2 ch s.out)).getD _ = _
      rw [hrun]
      rfl
    rw [hreply]
    exact ⟨rfl, Function.update_self ..⟩
  fails ch line env s err _ h := by cases h
  reads ch env out h := by cases h; rfl
  keeps c env ch hc := by
    cases c with
    | channelExec ch' line =>
      have hne : ch ≠ ch' := fun h => hc line (by rw [h])
      show (((machine.runLine line env.1).map fun s =>
        (s.world, Function.update env.2 ch' s.out)).getD env).2 ch = env.2 ch
      cases machine.runLine line env.1 with
      | none => rfl
      | some s => exact Function.update_of_ne hne _ _
    | _ => rfl
  opens _ _ := rfl
  tells _ _ := rfl
  closes _ _ := rfl

theorem sharesTree : SharesTree machine tree where
  toChangesTree := changesTree
  otherwise c kind p w hc _ hno := by
    rw [utility_eq c kind p w hc] at hno ⊢
    cases hchange : change kind w p with
    | none => exact congrArg (fun o => tree (o.getD w)) hchange
    | some w' =>
      have hzero : exit kind w p = 0 := exit_eq_zero.2 (Or.inl (by rw [hchange]; rfl))
      refine absurd ?_ hno
      show Does kind w.tree p (decide (exit kind w p = 0)) ((change kind w p).getD w).tree
      rw [decide_eq_true hzero, show true = (change kind w p).isSome by rw [hchange]; rfl]
      exact w.change_does p

theorem desk_changes : ServesChanges (fun env => tree (Prod.fst env)) desk where
  idle c env hc := by
    cases c with
    | authenticated s => rfl
    | stat f p => rfl
    | readlink f p => rfl
    | readdir f p => rfl
    | onWritten file => rfl
    | onRead file => rfl
    | _ => exact hc.elim
  mkdir f p mode env h := server_changes.mkdir f p mode (env.1, []) h
  unlink f p env h := server_changes.unlink f p (env.1, []) h
  rmdir f p env h := server_changes.rmdir f p (env.1, []) h

/-- Where the first `mkdir` comes too late. -/
def late : Handler Ssh (Bool × SampleDirs × (Channel → Str)) where
  reply
    | .channelExec ch line, (b, s) =>
      if b ∧ "mkdir".toList.isPrefixOf line then (.ok (), false, s.1, Function.update s.2 ch "1\n".toList)
      else (.ok (), b, (desk.reply (.channelExec ch line) s).2)
    | c, (b, s) => ((desk.reply c s).1, b, (desk.reply c s).2)

def twice : List ScpTreeOp := [⟨.createDir atD (.ofU32 0o700), rfl⟩, ⟨.createDir atD (.ofU32 0o700), rfl⟩]

/-- The SFTP client makes the directory and takes it away, the SCP client tries to make it twice. -/
def racer : Bool → Party
  | true =>
    .sftp _ desk (start, fun _ => []) sftpClient.self [⟨.createDir atD (.ofU32 0o700), rfl⟩, ⟨.removeDir atD, rfl⟩]
  | false => .scp _ late (true, start, fun _ => []) sampleLibs scpClient.self twice

def called (es : List (Sigma SshCall.Reply)) : List (Bool × Sigma SshCall.Reply) := es.map fun e => (false, e)

/-- The SCP client is connected, and finds nothing. -/
def tested : List (Bool × Sigma SshCall.Reply) :=
  called [⟨.authenticated ⟨0⟩, true⟩, ⟨.authenticated ⟨0⟩, true⟩] ++
    called (shellRun ⟨0⟩ ⟨0⟩ (ShellCmd.existsPath atD).line "1\n".toList (.ok ()))

def made (out : Str) : List (Bool × Sigma SshCall.Reply) :=
  called (shellRun ⟨0⟩ ⟨0⟩ (ShellCmd.createDir 0o700 atD).line out (.ok ()))

/-- Both look, then both ask, and the directory is taken away before it is asked for again. -/
def race : List (Bool × Sigma SshCall.Reply) :=
  [(true, ⟨.authenticated ⟨0⟩, true⟩)] ++ tested ++
    [(true, ⟨.stat ⟨0⟩ atD, .error ⟨.sftp 2, []⟩⟩), (true, ⟨.mkdir ⟨0⟩ atD 0o700, .ok ()⟩)] ++ made "1\n".toList ++
      [(true, ⟨.rmdir ⟨0⟩ atD, .ok ()⟩)] ++ tested ++ made "0\n".toList

theorem race_attended : ∃ out, Attended desk (start, fun _ => []) race ({ start with dir := true }, out) :=
  ⟨_, rfl, rfl, rfl, rfl, rfl, rfl, rfl, rfl, rfl, rfl, rfl, rfl, rfl, rfl, rfl, rfl, rfl, rfl, rfl, rfl, rfl,
    rfl, rfl, rfl, rfl⟩

theorem racer_log (i : Bool) : (racer i).log = part i race := by
  cases i with
  | true => rfl
  | false => rfl

theorem racer_plain (i : Bool) : (racer i).Plain := by
  cases i with
  | true => trivial
  | false =>
    show ∀ op ∈ twice, Sh.Plain (absolutize ['/'] op.ask.path)
    decide +kernel

/-- Only the SCP client runs commands. -/
theorem race_own (i k : Bool) (ch : Channel) (line line' : Str) (r r' : Except SshError Unit)
    (hi : (i, (⟨.channelExec ch line, r⟩ : Sigma SshCall.Reply)) ∈ race)
    (hk : (k, (⟨.channelExec ch line', r'⟩ : Sigma SshCall.Reply)) ∈ race) : k = i := by
  have hfalse : ∀ (b : Bool) (line : Str) (r : Except SshError Unit),
      (b, (⟨.channelExec ch line, r⟩ : Sigma SshCall.Reply)) ∈ race → b = false := by
    intro b line r h
    cases b with
    | false => rfl
    | true => simp [race, tested, made, called] at h
  rw [hfalse i line r hi, hfalse k line' r' hk]

end SampleDirs

end RemotefsSsh
