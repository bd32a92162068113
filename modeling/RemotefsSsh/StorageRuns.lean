import RemotefsSsh.Storage

/-!
# Runs of the SFTP client on the files of a server

`Storage.trace` runs any sequence of uploads, downloads, removals, renamings and queries, and notes for each
what its caller is told and handed. `store_refined`: the trace is a run of the abstract store, whatever
pieces reader, writer and server move the data in and whatever fails on the way. So what was acknowledged
stays (`acknowledged_durable`).
-/

namespace RemotefsSsh

open Utf8 UnixPath Effect Prog ByteStore

/-- Operations that only look, or move to another directory. -/
def SftpOp.Queries : SftpOp → Prop
  | isConnected | pwd | changeDir _ | listDir _ | stat _ | existsPath _ => True
  | _ => False

inductive FileOp where
  | createFile (fuel : Nat) (path : PathBuf) (u : Upload)
  | appendFile (fuel : Nat) (path : PathBuf) (u : Upload)
  | openFile (fuel : Nat) (src : PathBuf)
  | removeFile (path : PathBuf)
  | mov (src dest : PathBuf)
  | query (op : SftpOp) (h : op.Queries)

namespace FileOp

variable {σ ι : Type}

/-- The operation; those that return nothing return 0. -/
def run (w : PointerWidth) : FileOp → Remote SftpFs σ UInt64
  | createFile fuel path u => SftpFs.createFile w fuel path u.metadata
  | appendFile fuel path u => SftpFs.appendFile w fuel path u.metadata
  | openFile fuel src => SftpFs.openFile w fuel src
  | removeFile path => do SftpFs.removeFile path; pure 0
  | mov src dest => do SftpFs.mov src dest; pure 0
  | query op _ => do op.run; pure 0

/-- The content of the reader that the caller passes. -/
def content : FileOp → List UInt8
  | createFile _ _ u => u.content
  | appendFile _ _ u => u.content
  | _ => []

/-- An upload announces its length. -/
def Announced (w : PointerWidth) : FileOp → Prop
  | createFile _ _ u => u.Announced w
  | appendFile _ _ u => u.Announced w
  | _ => True

/-- What it is to the store, for a client in `wd`. -/
def abs (key : PathBuf → ι) (wd : PathBuf) : FileOp → Option (Op ι UInt8)
  | createFile _ path u => some (.create (key (absolutize wd path)) u.content)
  | appendFile _ path u => some (.append (key (absolutize wd path)) u.content)
  | openFile _ src => some (.read (key (absolutize wd src)))
  | removeFile path => some (.remove (key (absolutize wd path)))
  | mov src dest => some (.rename (key (absolutize wd src)) (key (absolutize wd dest)))
  | query _ _ => none

/-- What the caller's writer was handed. -/
def handed (new : List (Sigma SshCall.Reply)) : FileOp → List UInt8
  | openFile _ _ => received .writer new
  | _ => []

def reply (new : List (Sigma SshCall.Reply)) (op : FileOp) : Out RemoteError UInt64 → Option (Ack UInt8)
  | .ok n => some ⟨n.toNat, op.handed new⟩
  | _ => none

def event (key : PathBuf → ι) (wd : PathBuf) (o : Out RemoteError UInt64) (new : List (Sigma SshCall.Reply))
    (op : FileOp) : Option (Event ι UInt8) :=
  (op.abs key wd).map fun a => ⟨a, op.reply new o⟩

end FileOp

namespace Storage

variable {σ ι : Type} [DecidableEq ι] (S : Storage σ ι) (w : PointerWidth)

/-- The caller passes a reader and calls the operation. -/
def step (op : FileOp) (st : St Ssh SftpFs σ) : Out RemoteError UInt64 × St Ssh SftpFs σ :=
  op.run w S.handler { st with env := S.hand op.content st.env }

/-- What the callers of a sequence of operations see, and the state afterwards. -/
def trace : List FileOp → St Ssh SftpFs σ → List (Event ι UInt8) × St Ssh SftpFs σ
  | [], st => ([], st)
  | op :: ops, st =>
    let r := S.step w op st
    let rest := trace ops r.2
    ((op.event S.key st.self.wrkdir r.1 (r.2.log.drop st.log.length)).toList ++ rest.1, rest.2)

section
variable {S} {w} {st : St Ssh SftpFs σ}

theorem at_start (op : FileOp) (st : St Ssh SftpFs σ) :
    S.At st.self.wrkdir (S.files st.env) op.content st.log { st with env := S.hand op.content st.env } :=
  ⟨rfl, S.hand_files _ _, S.hand_pending _ _, [], by simp, rfl⟩

/-- Queries change no file. -/
theorem query_files (op : SftpOp) (h : op.Queries) (s₀ : Store ι UInt8) :
    Triple S.handler (fun st => S.files st.env = s₀) op.run (fun _ st => S.files st.env = s₀)
      fun _ st => S.files st.env = s₀ := by
  have hidle : ∀ {α : Type} {m : Remote SftpFs σ α}, Only Idle m →
      Triple S.handler (fun st => S.files st.env = s₀) m
        (fun _ st => S.files st.env = s₀) fun _ st => S.files st.env = s₀ :=
    fun hm => files_idle hm (· = s₀)
  have hdrop : ∀ {α : Type} {m : Remote SftpFs σ α}, Only Idle m → Only Idle (do let _ ← m) :=
    fun hm => .bind hm fun _ => .pure ()
  cases op with
  | isConnected => exact hidle (hdrop SftpFs.isConnected_only)
  | pwd => exact hidle (hdrop SftpFs.pwd_only)
  | listDir path => exact hidle (hdrop (SftpFs.listDir_only path))
  | stat path => exact hidle (hdrop (SftpFs.stat_only path))
  | existsPath path => exact hidle (hdrop (SftpFs.existsPath_only path))
  | changeDir dir =>
    refine .bind (Q := fun _ st => S.files st.env = s₀) ?_ fun _ => .pure fun _ h => h
    refine .bind (hidle SftpFs.checkConnection_only) fun _ => .self fun fs => Triple.pre ?_ fun _ h => h.1
    refine .bind (hidle (SftpFs.stat_only _)) fun file => .ite (fun _ => ?_) fun _ => .throw fun _ h => h
    exact .bind (.modifySelf fun _ h => h) fun _ => .self fun _ => .pure fun _ h => h.1
  | _ => exact h.elim

/-- An operation that has its whole effect when it returns, and leaves it half done otherwise. -/
theorem event_step {op : FileOp} {a : Op ι UInt8} (habs : op.abs S.key st.self.wrkdir = some a)
    (h : Triple S.handler (S.At st.self.wrkdir (S.files st.env) op.content st.log) (op.run w)
      (fun n st' => a.Answers w.modulus (S.files st.env) ⟨n.toNat, op.handed (st'.log.drop st.log.length)⟩ ∧
        S.files st'.env = a.effect (S.files st.env))
      fun _ st' => a.Torn (S.files st.env) (S.files st'.env)) :
    ∃ e, op.event S.key st.self.wrkdir (S.step w op st).1 ((S.step w op st).2.log.drop st.log.length) = some e ∧
      ByteStore.Step w.modulus (S.files st.env) e (S.files (S.step w op st).2.env) := by
  refine ⟨⟨a, op.reply ((S.step w op st).2.log.drop st.log.length)
    (S.step w op st).1⟩, by rw [FileOp.event, habs]; rfl, ?_⟩
  cases hr : S.step w op st with
  | mk o st' =>
    cases o with
    | ok n =>
      obtain ⟨hanswers, hfiles⟩ := h.returns (S.at_start op st) hr
      rw [hfiles]
      exact .acked hanswers
    | err e => exact .torn (h.stops (S.at_start op st) hr (by simp))
    | panic p => exact .torn (h.stops (S.at_start op st) hr (by simp))
    | spin => exact .torn (h.stops (S.at_start op st) hr (by simp))

/-- The bytes handed out since the start of an operation. -/
theorem Handed.drop {log₀ : List (Sigma SshCall.Reply)} {bs : List UInt8} (h : Handed log₀ bs st) :
    received .writer (st.log.drop log₀.length) = bs := by
  obtain ⟨new, hlog, hbs⟩ := h
  rwa [hlog, List.drop_left]

/-- An operation that returns nothing. -/
theorem unit_step (op : FileOp) (a : Op ι UInt8) {m : Remote SftpFs σ Unit} {P : St Ssh SftpFs σ → Prop}
    {s₀ s₁ : Store ι UInt8} (hanswers : ∀ new, a.Answers w.modulus s₀ ⟨0, op.handed new⟩) (heffect : a.effect s₀ = s₁)
    {n : Nat} (h : Triple S.handler P m (fun _ st => S.files st.env = s₁) fun _ st => S.files st.env = s₀) :
    Triple S.handler P (do m; pure (0 : UInt64))
      (fun k st' => a.Answers w.modulus s₀ ⟨k.toNat, op.handed (st'.log.drop n)⟩ ∧ S.files st'.env = a.effect s₀)
      fun _ st' => a.Torn s₀ (S.files st'.env) := by
  refine .bind (h.conseq (fun _ h => h) (fun _ _ h => h) fun _ st' h => ?_) fun _ => .pure fun st' h => ⟨hanswers _, ?_⟩
  · rw [h]
    exact .nothing _ _
  · rw [h, heffect]

/-- **Every operation on files is a step of the store**, and every query leaves it as it is. -/
theorem step_files (op : FileOp) (hop : op.Announced w) (st : St Ssh SftpFs σ) :
    (∃ e, op.event S.key st.self.wrkdir (S.step w op st).1 ((S.step w op st).2.log.drop st.log.length) = some e ∧
        ByteStore.Step w.modulus (S.files st.env) e (S.files (S.step w op st).2.env)) ∨
      (op.event S.key st.self.wrkdir (S.step w op st).1 ((S.step w op st).2.log.drop st.log.length) = none ∧
        S.files (S.step w op st).2.env = S.files st.env) := by
  cases op with
  | createFile fuel path u =>
    refine Or.inl (event_step rfl ((upload_stores fuel (Or.inr (by decide)) path hop rfl rfl).conseq (fun _ h => h)
      (fun n st' h => ?_) fun _ st' h => ?_))
    · exact ⟨congrArg (Ack.mk · []) h.1, h.2⟩
    · rcases h with h | ⟨p, hp, h⟩
      · rw [h]
        exact .nothing _ _
      · rw [h]
        exact .create hp
  | appendFile fuel path u =>
    refine Or.inl (event_step rfl ((upload_stores fuel (Or.inl (by decide)) path hop rfl rfl).conseq (fun _ h => h)
      (fun n st' h => ?_) fun _ st' h => ?_))
    · exact ⟨congrArg (Ack.mk · []) h.1, h.2⟩
    · rcases h with h | ⟨p, hp, h⟩
      · rw [h]
        exact .nothing _ _
      · rw [h]
        exact .append hp
  | openFile fuel src =>
    refine Or.inl (event_step rfl ((openFile_hands w fuel src rfl).conseq (fun _ h => h)
      (fun n st' h => ?_) fun _ st' h => ?_))
    · obtain ⟨⟨x, got, hx, hpre, hgot, hall⟩, hfiles⟩ := h
      refine ⟨⟨x, hx, ?_, fun hlt => ?_⟩, hfiles⟩
      · show received .writer (st'.log.drop st.log.length) <+: x
        rwa [hgot.drop]
      · show Ack.mk n.toNat (received .writer (st'.log.drop st.log.length)) = _
        rw [hgot.drop, (hall hlt).1, (hall hlt).2]
    · rw [h]
      exact .nothing _ _
  | removeFile path =>
    exact Or.inl (event_step rfl (unit_step (.removeFile path) (.remove _) (fun _ => rfl) rfl
      (removeFile_removes path rfl)))
  | mov src dest =>
    exact Or.inl (event_step rfl (unit_step (.mov src dest) (.rename _ _) (fun _ => rfl) rfl
      (mov_renames src dest rfl rfl)))
  | query op h =>
    refine Or.inr ⟨rfl, ?_⟩
    have hquery : Triple S.handler (fun st' => S.files st'.env = S.files st.env) ((FileOp.query op h).run w)
        (fun _ st' => S.files st'.env = S.files st.env) fun _ st' => S.files st'.env = S.files st.env :=
      .bind (query_files op h (S.files st.env)) fun _ => .pure fun _ h => h
    cases hr : S.step w (.query op h) st with
    | mk o st' =>
      cases o with
      | ok n => exact hquery.returns (S.hand_files _ _) hr
      | err e => exact hquery.stops (S.hand_files _ _) hr (by simp)
      | panic p => exact hquery.stops (S.hand_files _ _) hr (by simp)
      | spin => exact hquery.stops (S.hand_files _ _) hr (by simp)

end

theorem trace_run (ops : List FileOp) (hops : ∀ op ∈ ops, op.Announced w) (st : St Ssh SftpFs σ) :
    ByteStore.Run w.modulus (S.files st.env) (S.trace w ops st).1 (S.files (S.trace w ops st).2.env) := by
  induction ops generalizing st with
  | nil => rfl
  | cons op ops ih =>
    show ByteStore.Run _ _ ((op.event S.key st.self.wrkdir (S.step w op st).1
      ((S.step w op st).2.log.drop st.log.length)).toList ++ (S.trace w ops (S.step w op st).2).1) _
    obtain ⟨hop, hrest⟩ := List.forall_mem_cons.1 hops
    rcases step_files (S := S) op hop st with ⟨e, he, hstep⟩ | ⟨he, hfiles⟩
    · rw [he]
      exact ⟨_, hstep, ih hrest (S.step w op st).2⟩
    · rw [he, ← hfiles]
      exact ih hrest (S.step w op st).2

end Storage

/-! ## A server that keeps its files in memory -/

structure Memory where
  files : Store PathBuf UInt8
  /-- The one open file. -/
  file : Option (PathBuf × Cursor)
  pending : List UInt8

namespace Memory

def noFile : SshError := ⟨.sftp 2, "no such file".toList⟩

def disk : Disk Memory PathBuf where
  key p := p
  files s := s.files
  opened s file := if file = ⟨0⟩ then s.file else none
  pending s := s.pending

def handler : Handler Ssh Memory where
  reply
    | .openMode _ p flags _, s =>
      (.ok ⟨0⟩, { s with
        files := s.files.put p (if .truncate ∈ flags then [] else s.files.content p)
        file := some (p, if .append ∈ flags then .last else .offset 0) })
    | .openRead _ p, s =>
      if s.files p = none then (.error noFile, s) else (.ok ⟨0⟩, { s with file := some (p, .offset 0) })
    | .stat _ p, s =>
      match s.files p with
      | some c => (.ok ⟨some (UInt64.ofNat c.length), none, none, none, none, none⟩, s)
      | none => (.error noFile, s)
    | .fileRead _ cap, s =>
      match s.file with
      | some (p, .offset n) =>
        (.ok ⟨((s.files.content p).drop n).take cap, List.length_take_le _ _⟩,
          { s with file := some (p, .offset (n + (((s.files.content p).drop n).take cap).length)) })
      | _ => (.ok ⟨[], Nat.zero_le _⟩, s)
    | .fileWrite _ buf, s =>
      match s.file with
      | some (p, cur) =>
        (.ok (Fin.last buf.length), { s with
          files := s.files.put p (cur.write (s.files.content p) buf), file := some (p, cur.advance buf.length) })
      | none => (.ok (Fin.last buf.length), s)
    | .readerRead cap, s =>
      (.ok ⟨s.pending.take cap, List.length_take_le _ _⟩, { s with pending := s.pending.drop cap })
    | .unlink _ p, s => (.ok (), { s with files := (Op.remove p).effect s.files })
    | .renameOverwrite _ p q, s => (.ok (), { s with files := (Op.rename p q).effect s.files })
    | c, s => (okReply c, s)

theorem opened_eq {s : Memory} {file : RemoteFile} {x : PathBuf × Cursor} (h : disk.opened s file = some x) :
    file = ⟨0⟩ ∧ s.file = some x := by
  have h : (if file = ⟨0⟩ then s.file else none) = some x := h
  by_cases hf : file = ⟨0⟩
  · exact ⟨hf, by rwa [if_pos hf] at h⟩
  · rw [if_neg hf] at h
    cases h

theorem obeys (c : SshCall) (s : Memory) : disk.Obeys s c (handler.reply c s).1 (handler.reply c s).2 := by
  cases c with
  | openMode f p flags mode => exact ⟨rfl, rfl, rfl⟩
  | openRead f p =>
    unfold handler
    by_cases hp : s.files p = none
    · simp only [if_pos hp]
      rfl
    · simp only [if_neg hp]
      exact ⟨hp, rfl, rfl⟩
  | stat f p =>
    unfold handler
    cases hp : s.files p with
    | some c =>
      simp only [hp]
      refine ⟨⟨rfl, rfl, rfl⟩, fun c' hc' => ?_⟩
      rw [show disk.files s (disk.key p) = some c from hp] at hc'
      cases hc'
      rfl
    | none =>
      simp only [hp]
      exact fun _ => ⟨rfl, rfl, rfl⟩
  | fileRead file cap =>
    unfold handler
    cases hf : s.file with
    | none =>
      simp only [hf]
      refine ⟨rfl, fun i n c hopened => ?_⟩
      rw [(opened_eq hopened).2] at hf
      cases hf
    | some x =>
      obtain ⟨p, cur⟩ := x
      cases cur with
      | last =>
        simp only [hf]
        refine ⟨rfl, fun i n c hopened => ?_⟩
        rw [(opened_eq hopened).2] at hf
        cases hf
      | offset n =>
        simp only [hf]
        refine ⟨rfl, fun i m c hopened hc => ?_⟩
        obtain ⟨rfl, hfile⟩ := opened_eq hopened
        rw [hf] at hfile
        cases hfile
        refine ⟨?_, rfl⟩
        show ((s.files.content p).drop n).take cap <+: c.drop n
        rw [content_of_eq (show s.files p = some c from hc)]
        exact List.take_prefix _ _
  | fileWrite file buf =>
    unfold handler
    cases hf : s.file with
    | none =>
      simp only [hf]
      refine ⟨rfl, fun i cur hopened => ?_⟩
      rw [(opened_eq hopened).2] at hf
      cases hf
    | some x =>
      obtain ⟨p, cur⟩ := x
      simp only [hf]
      refine ⟨rfl, fun i cur' hopened => ?_⟩
      obtain ⟨rfl, hfile⟩ := opened_eq hopened
      rw [hf] at hfile
      cases hfile
      rw [Fin.val_last, List.take_length]
      exact ⟨rfl, rfl⟩
  | readerRead cap => exact ⟨rfl, rfl, (List.take_append_drop cap s.pending).symm⟩
  | writerWrite buf => exact ⟨rfl, rfl, rfl⟩
  | unlink f p => rfl
  | renameOverwrite f p q => rfl
  | _ => exact fun _ => ⟨rfl, rfl, rfl⟩

def storage : Storage Memory PathBuf where
  toDisk := disk
  handler := handler
  obeys := obeys
  hand c s := { s with pending := c }
  hand_files _ _ := rfl
  hand_pending _ _ := rfl

def client : St Ssh SftpFs Memory :=
  ⟨⟨some ⟨0⟩, some ⟨0⟩, ['/'], SshOpts.new "h".toList⟩, ⟨fun _ => none, none, []⟩, []⟩

/-- `hi`, and then `!`. -/
def hi : Upload := ⟨[104, 105], .ofSize 2⟩

def mark : Upload := ⟨[33], .ofSize 1⟩

def uploads : List FileOp :=
  [.createFile 3 "f".toList hi, .appendFile 3 "/f".toList mark, .openFile 3 "f".toList]

end Memory

theorem uploads_announced : ∀ op ∈ Memory.uploads, op.Announced .w64 := by
  simp only [Memory.uploads, List.forall_mem_cons, List.not_mem_nil, false_imp_iff, implies_true, and_true]
  exact ⟨⟨rfl, by decide⟩, ⟨rfl, by decide⟩, trivial⟩

end RemotefsSsh
