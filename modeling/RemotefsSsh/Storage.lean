import RemotefsSsh.Client
import RemotefsSsh.Lib.ByteStore
import RemotefsSsh.Lib.Hoare
import RemotefsSsh.Transfer

/-!
# What the transfers do to the files of a server (ssh/sftp.rs)

A `Storage` is an environment with files: paths name keys, an open file has a cursor, a read returns bytes
from there on and a write puts bytes there, in pieces of any size; a request that fails leaves the files alone, but
for a write, which may have put a beginning of its buffer. The caller hands over a reader with a content.

Against it every operation on files is a step of the abstract store (`ByteStore.Step`): it has its whole
effect when it returns, and otherwise has written a beginning of the content at most.
-/

namespace RemotefsSsh

open Utf8 UnixPath Effect Prog ByteStore

/-- Calls that change no file and move no data. -/
def Idle : SshCall → Prop
  | .authenticated _ | .stat .. | .readlink .. | .readdir .. | .onWritten _ | .onRead _ => True
  | _ => False

/-- What can be seen of the files on a server, and of the caller's reader. -/
structure Disk (σ ι : Type) where
  /-- What a path names. -/
  key : PathBuf → ι
  files : σ → Store ι UInt8
  opened : σ → RemoteFile → Option (ι × Cursor)
  /-- What the reader has left. -/
  pending : σ → List UInt8

namespace Disk

variable {σ ι : Type} [DecidableEq ι] (D : Disk σ ι)

def Same (s s' : σ) : Prop := D.files s' = D.files s ∧ D.opened s' = D.opened s ∧ D.pending s' = D.pending s

/-- What a call may be answered with, and do. -/
def Obeys (s : σ) : (c : SshCall) → c.Reply → σ → Prop
  | .openMode _ p flags _, .ok file, s' =>
    D.files s' = (D.files s).put (D.key p) (if .truncate ∈ flags then [] else (D.files s).content (D.key p)) ∧
      D.opened s' file = some (D.key p, if .append ∈ flags then .last else .offset 0) ∧ D.pending s' = D.pending s
  | .openMode .., .error _, s' => D.files s' = D.files s
  | .openRead _ p, .ok file, s' =>
    D.files s (D.key p) ≠ none ∧ D.files s' = D.files s ∧ D.opened s' file = some (D.key p, .offset 0)
  | .openRead .., .error _, s' => D.files s' = D.files s
  | .fileRead file _, .ok bs, s' =>
    D.files s' = D.files s ∧ ∀ i n c, D.opened s file = some (i, .offset n) → D.files s i = some c →
      bs.val <+: c.drop n ∧ D.opened s' file = some (i, .offset (n + bs.val.length))
  | .fileRead .., .error _, s' => D.files s' = D.files s
  | .fileWrite file buf, .ok n, s' =>
    D.pending s' = D.pending s ∧ ∀ i cur, D.opened s file = some (i, cur) →
      D.files s' = (D.files s).put i (cur.write ((D.files s).content i) (buf.take n)) ∧
        D.opened s' file = some (i, cur.advance (buf.take n).length)
  | .fileWrite file buf, .error _, s' =>
    ∀ i cur, D.opened s file = some (i, cur) →
      ∃ bs, bs <+: buf ∧ D.files s' = (D.files s).put i (cur.write ((D.files s).content i) bs)
  | .readerRead _, .ok bs, s' =>
    D.files s' = D.files s ∧ D.opened s' = D.opened s ∧ D.pending s = bs.val ++ D.pending s'
  | .readerRead _, .error _, s' => D.files s' = D.files s
  | .writerWrite _, _, s' => D.Same s s'
  | .unlink _ p, .ok _, s' => D.files s' = (Op.remove (D.key p)).effect (D.files s)
  | .unlink .., .error _, s' => D.files s' = D.files s
  | .renameOverwrite _ p q, .ok _, s' => D.files s' = (Op.rename (D.key p) (D.key q)).effect (D.files s)
  | .renameOverwrite .., .error _, s' => D.files s' = D.files s
  | .stat _ p, .ok m, s' =>
    D.Same s s' ∧ ∀ c, D.files s (D.key p) = some c → m.size = some (UInt64.ofNat c.length)
  | c, _, s' => Idle c → D.Same s s'

end Disk

/-- An environment with files. -/
structure Storage (σ ι : Type) [DecidableEq ι] extends Disk σ ι where
  handler : Handler Ssh σ
  obeys : ∀ c s, toDisk.Obeys s c (handler.reply c s).1 (handler.reply c s).2
  /-- The caller makes a reader for a content. -/
  hand : List UInt8 → σ → σ
  hand_files : ∀ c s, files (hand c s) = files s
  hand_pending : ∀ c s, pending (hand c s) = c

/-- What is uploaded: the content that the reader has, and the metadata that comes with it. -/
structure Upload where
  content : List UInt8
  metadata : Metadata

/-- The metadata announces the length of the content, which fits into `usize`. The loop takes its end from there:
what becomes of another upload is in `upload_complete_iff`. -/
structure Upload.Announced (w : PointerWidth) (u : Upload) : Prop where
  size : u.metadata.size.toNat = u.content.length
  fits : u.content.length < w.modulus

/-! ## Calls that leave the files alone -/

theorem idle_sees (hs : Handles) : (Scope.requests Idle).Sees hs :=
  ⟨fun _ _ => trivial, fun _ _ _ => trivial, fun _ _ _ => trivial⟩

namespace SftpFs

section
variable {σ : Type}

theorem isConnected_only : Only Idle (isConnected : Remote SftpFs σ _) :=
  only_requests (ρ := Refused) (υ := fun _ => True) (b := true) fun k => isConnected_built (idle_sees k.handles)

theorem checkConnection_only : Only Idle (checkConnection : Remote SftpFs σ _) :=
  only_requests (ρ := Refused) (υ := fun _ => True) fun k => checkConnection_built (idle_sees k.handles)

theorem pwd_only : Only Idle (pwd : Remote SftpFs σ _) :=
  only_requests (ρ := Refused) (υ := fun _ => True) fun k => pwd_built (idle_sees k.handles)

theorem linkTarget_only (path : PathBuf) (metadata : FileStat) :
    Only Idle (linkTarget path metadata : Remote SftpFs σ _) :=
  only_requests (ρ := Refused) (υ := fun k => k.sftp.isSome = true) fun k =>
    linkTarget_built (idle_sees k.handles) id path metadata

theorem stat_only (path : PathBuf) : Only Idle (stat path : Remote SftpFs σ _) :=
  only_requests (ρ := Refused) (υ := fun _ => True) fun k => stat_built (idle_sees k.handles) path

theorem existsPath_only (path : PathBuf) : Only Idle (existsPath path : Remote SftpFs σ _) :=
  only_requests (ρ := Refused) (υ := fun _ => True) fun k => existsPath_built (idle_sees k.handles) path

theorem existsOrFalse_only (path : PathBuf) : Only Idle (existsOrFalse path : Remote SftpFs σ _) :=
  only_requests (ρ := Refused) (υ := fun _ => True) (b := true) fun k => existsOrFalse_built (idle_sees k.handles) path

theorem listDir_only (path : PathBuf) : Only Idle (listDir path : Remote SftpFs σ _) :=
  only_requests (ρ := Refused) (υ := fun _ => True) fun k =>
    listDir_built (idle_sees k.handles) (fun _ _ _ => trivial) path

/-- The end of an upload. -/
theorem onWritten_only (file : RemoteFile) : Only Idle (finish (ask (.onWritten file)) : Remote SftpFs σ _) :=
  only_requests (ρ := Refused) (υ := fun _ => True) (b := false) fun _ =>
    finish_built (question_built (c := .onWritten file) trivial rfl) nofun

/-- The end of a download. -/
theorem onRead_only (file : RemoteFile) : Only Idle (finish (ask (.onRead file)) : Remote SftpFs σ _) :=
  only_requests (ρ := Refused) (υ := fun _ => True) (b := false) fun _ =>
    finish_built (question_built (c := .onRead file) trivial rfl) nofun

end

end SftpFs

/-! ## Uploads -/

namespace Storage

variable {σ ι : Type} [DecidableEq ι] (S : Storage σ ι)

theorem idle {c : SshCall} (hc : Idle c) (s : σ) : S.Same s (S.handler.reply c s).2 := by
  have h := S.obeys c s
  cases c with
  | stat f p =>
    cases hr : (S.handler.reply (.stat f p) s).1 with
    | ok m => rw [hr] at h; exact h.1
    | error e => rw [hr] at h; exact h trivial
  | authenticated _ => exact h trivial
  | readlink _ _ => exact h trivial
  | readdir _ _ => exact h trivial
  | onWritten _ => exact h trivial
  | onRead _ => exact h trivial
  | _ => exact hc.elim

/-- The calls since `log₀` have handed `bs` to the caller's writer. -/
def Handed (log₀ : List (Sigma SshCall.Reply)) (bs : List UInt8) (st : St Ssh SftpFs σ) : Prop :=
  ∃ new, st.log = log₀ ++ new ∧ received .writer new = bs

/-- The client is in `wd`, the files are `s₀`, the reader has `c` left, and nothing was handed out yet. -/
structure At (wd : PathBuf) (s₀ : Store ι UInt8) (c : List UInt8) (log₀ : List (Sigma SshCall.Reply))
    (st : St Ssh SftpFs σ) : Prop where
  wrkdir : st.self.wrkdir = wd
  files : S.files st.env = s₀
  pending : S.pending st.env = c
  handed : Handed log₀ [] st

/-- An open file under `i` has got `sent` behind what it had, and the reader has `rest` left. -/
structure Filling (file : RemoteFile) (i : ι) (s₀ : Store ι UInt8) (old sent rest : List UInt8) (st : St Ssh SftpFs σ) :
    Prop where
  files : S.files st.env = s₀.put i (old ++ sent)
  pending : S.pending st.env = rest
  opened : ∃ cur, S.opened st.env file = some (i, cur) ∧ cur.AtEnd (old ++ sent)

/-- A beginning of `c` was written behind `old`. -/
def Partly (i : ι) (s₀ : Store ι UInt8) (old c : List UInt8) (st : St Ssh SftpFs σ) : Prop :=
  ∃ p, p <+: c ∧ S.files st.env = s₀.put i (old ++ p)

/-- An open file under `i` stands at `n`, and `got` was handed out. -/
structure Handing (file : RemoteFile) (i : ι) (s₀ : Store ι UInt8) (log₀ : List (Sigma SshCall.Reply)) (n : Nat)
    (got : List UInt8) (st : St Ssh SftpFs σ) : Prop where
  files : S.files st.env = s₀
  opened : S.opened st.env file = some (i, .offset n)
  handed : Handed log₀ got st

section
variable {S} {α : Type} {wd : PathBuf} {s₀ : Store ι UInt8} {c old sent rest : List UInt8} {file : RemoteFile} {i : ι}
  {log₀ : List (Sigma SshCall.Reply)} {st : St Ssh SftpFs σ}

theorem Filling.partly (h : S.Filling file i s₀ old sent rest st) (hpre : sent <+: c) : S.Partly i s₀ old c st :=
  ⟨sent, hpre, h.files⟩

omit [DecidableEq ι] in
theorem Handed.asked {H : Handler Ssh σ} {bs : List UInt8} {call : SshCall} (hcall : ∀ buf, call ≠ .writerWrite buf)
    (h : Handed log₀ bs st) : Handed log₀ bs (Effect.asked H call st) := by
  obtain ⟨new, hlog, hbs⟩ := h
  refine ⟨new ++ [⟨call, (H.reply call st.env).1⟩], ?_, ?_⟩
  · show st.log ++ _ = _
    rw [hlog, List.append_assoc]
  · rw [received_append, hbs]
    cases call with
    | writerWrite buf => exact absurd rfl (hcall buf)
    | _ => simp [received, Sink.taken]

theorem at_idle {m : Remote SftpFs σ α} (hm : Only Idle m) :
    Triple S.handler (S.At wd s₀ c log₀) m (fun _ => S.At wd s₀ c log₀) fun _ => S.At wd s₀ c log₀ := by
  refine hm.triple fun call hcall st h => ?_
  obtain ⟨hfiles, -, hpending⟩ := S.idle hcall st.env
  refine ⟨h.wrkdir, hfiles.trans h.files, hpending.trans h.pending, h.handed.asked ?_⟩
  rintro buf rfl
  exact hcall

theorem at_idle_files {m : Remote SftpFs σ α} (hm : Only Idle m) :
    Triple S.handler (S.At wd s₀ c log₀) m (fun _ => S.At wd s₀ c log₀) fun _ st => S.files st.env = s₀ :=
  (at_idle hm).conseq (fun _ h => h) (fun _ _ h => h) fun _ _ h => h.files

/-- The record that is read is in `wd`. -/
theorem self_at {f : SftpFs → Remote SftpFs σ α} {Q : α → St Ssh SftpFs σ → Prop}
    {E : Option RemoteError → St Ssh SftpFs σ → Prop}
    (h : ∀ fs, fs.wrkdir = wd → Triple S.handler (S.At wd s₀ c log₀) (f fs) Q E) :
    Triple S.handler (S.At wd s₀ c log₀) (Prog.self >>= f) Q E :=
  .self fun fs => Triple.pre (.given (h fs)) fun _ h => ⟨by rw [← h.2, h.1.wrkdir], h.1⟩

theorem write_fills (buf : List UInt8) (st : St Ssh SftpFs σ) (h : S.Filling file i s₀ old sent rest st) :
    (∀ n, (S.handler.reply (.fileWrite file buf) st.env).1 = .ok n →
        S.Filling file i s₀ old (sent ++ buf.take n) rest (asked S.handler (.fileWrite file buf) st)) ∧
      ∀ e, (S.handler.reply (.fileWrite file buf) st.env).1 = .error e →
        S.Partly i s₀ old (sent ++ buf) (asked S.handler (.fileWrite file buf) st) := by
  obtain ⟨hfiles, hpending, cur, hopened, hend⟩ := h
  have hobeys := S.obeys (.fileWrite file buf) st.env
  have hcontent : (S.files st.env).content i = old ++ sent := by
    rw [hfiles]
    exact content_of_eq (put_same _ _ _)
  constructor
  · intro n hn
    rw [hn] at hobeys
    obtain ⟨hpending', hwrite⟩ := hobeys
    obtain ⟨hfiles', hopened'⟩ := hwrite i cur hopened
    rw [hcontent, hend.write, hfiles, put_put, List.append_assoc] at hfiles'
    refine ⟨hfiles', hpending'.trans hpending, _, hopened', ?_⟩
    rw [← List.append_assoc]
    exact hend.advance _
  · intro e he
    rw [he] at hobeys
    obtain ⟨bs, hpre, hfiles'⟩ := hobeys i cur hopened
    rw [hcontent, hend.write, hfiles, put_put, List.append_assoc] at hfiles'
    exact ⟨sent ++ bs, (List.prefix_append_right_inj sent).2 hpre, hfiles'⟩

/-- The inner loop puts the rest of the buffer behind what was sent. -/
theorem writeLoop_fills (buffer : List UInt8) (fuel delta : Nat) (hd : delta ≤ buffer.length) :
    Triple S.handler (S.Filling file i s₀ old (sent ++ buffer.take delta) rest)
      (writeLoop (.remote file) buffer fuel delta) (fun _ => S.Filling file i s₀ old (sent ++ buffer) rest)
      fun _ => S.Partly i s₀ old (sent ++ buffer) := by
  have hpre : ∀ k, sent ++ buffer.take k <+: sent ++ buffer := fun k =>
    (List.prefix_append_right_inj sent).2 (List.take_prefix k buffer)
  induction fuel generalizing delta with
  | zero => exact .spin fun st h => h.partly (hpre delta)
  | succ fuel ih =>
    unfold writeLoop
    refine .ite (fun hlt => ?_) fun hge => ?_
    · refine .bind (Q := Answered
          (fun n : Fin ((buffer.drop delta).length + 1) =>
            S.Filling file i s₀ old (sent ++ buffer.take (delta + n)) rest)
          fun _ => S.Partly i s₀ old (sent ++ buffer)) (.call fun st h => ?_) fun r => ?_
      · obtain ⟨hok, herr⟩ := write_fills (buffer.drop delta) st h
        cases hr : (S.handler.reply (.fileWrite file (buffer.drop delta)) st.env).1 with
        | ok n =>
          have hfill := hok n hr
          rw [List.append_assoc, ← List.take_add] at hfill
          exact hfill
        | error e =>
          have hpart := herr e hr
          rw [List.append_assoc, List.take_append_drop] at hpart
          exact hpart
      · cases r with
        | error e => exact .throw fun st h => h
        | ok n =>
          have hn := Nat.lt_succ_iff.1 n.isLt
          have hlen : (buffer.drop delta).length = buffer.length - delta := List.length_drop
          exact ih (delta + n) (by omega)
    · refine .pure fun st h => ?_
      rwa [List.take_of_length_le (by omega)] at h

/-- The outer loop moves the whole content when its length is announced. -/
theorem transferLoop_fills (w : PointerWidth) (hfits : c.length < w.modulus) (inner fuel bytes : Nat) :
    Triple S.handler (fun st => ∃ sent rest, sent ++ rest = c ∧ bytes = sent.length ∧
      S.Filling file i s₀ old sent rest st)
      (transferLoop w .reader (.remote file) c.length inner fuel bytes)
      (fun n st => n = c.length ∧ S.files st.env = s₀.put i (old ++ c)) fun _ => S.Partly i s₀ old c := by
  induction fuel generalizing bytes with
  | zero =>
    refine .spin fun st h => ?_
    obtain ⟨sent, rest, hc, -, h⟩ := h
    exact h.partly ⟨rest, hc⟩
  | succ fuel ih =>
    unfold transferLoop
    refine .ite (fun hlt => ?_) fun hge => ?_
    · refine .bind (Q := Answered
          (fun buffer st => ∃ sent rest, sent ++ (buffer.val ++ rest) = c ∧ bytes = sent.length ∧
            S.Filling file i s₀ old sent rest st)
          fun _ => S.Partly i s₀ old c) (.call fun st h => ?_) fun r => ?_
      · obtain ⟨sent, rest, hc, hbytes, hfiles, hpending, hopened⟩ := h
        have hobeys := S.obeys (.readerRead bufferLen) st.env
        cases hr : (S.handler.reply (.readerRead bufferLen) st.env).1 with
        | ok bs =>
          rw [hr] at hobeys
          obtain ⟨hfiles', hopened', hread⟩ := hobeys
          refine ⟨sent, S.pending (S.handler.reply (.readerRead bufferLen) st.env).2, ?_, hbytes,
            hfiles'.trans hfiles, rfl, ?_⟩
          · rw [← hread, hpending, hc]
          · show ∃ cur, S.opened (S.handler.reply (.readerRead bufferLen) st.env).2 file = some (i, cur) ∧ _
            rwa [hopened']
        | error e =>
          rw [hr] at hobeys
          exact ⟨sent, ⟨rest, hc⟩, hobeys.trans hfiles⟩
      · cases r with
        | error e => exact .throw fun st h => h
        | ok buffer =>
          refine .exists_pre fun sent => .exists_pre fun rest => .given fun hc => .given fun hbytes => ?_
          have hwrite : Triple S.handler (S.Filling file i s₀ old (sent ++ buffer.val.take 0) rest)
              (writeLoop (.remote file) buffer.val inner 0) (fun _ => S.Filling file i s₀ old (sent ++ buffer.val) rest)
              fun _ => S.Partly i s₀ old (sent ++ buffer.val) := writeLoop_fills buffer.val inner 0 (Nat.zero_le _)
          rw [List.take_zero, List.append_nil] at hwrite
          refine .bind (hwrite.conseq (fun st h => h) (fun _ st h => h) fun _ st h => ?_) fun _ =>
            (ih _).pre fun st h => ?_
          · obtain ⟨p, hp, hfiles⟩ := h
            exact ⟨p, hp.trans ⟨rest, by rw [List.append_assoc, hc]⟩, hfiles⟩
          · have hlen := congrArg List.length hc
            simp only [List.length_append] at hlen
            refine ⟨sent ++ buffer.val, rest, by rw [List.append_assoc, hc], ?_, h⟩
            rw [hbytes, List.length_append, Nat.mod_eq_of_lt (by omega)]
    · refine .pure fun st h => ?_
      obtain ⟨sent, rest, hc, hbytes, h⟩ := h
      have hlen := congrArg List.length hc
      rw [List.length_append] at hlen
      obtain rfl : rest = [] := List.length_eq_zero_iff.1 (by omega)
      rw [List.append_nil] at hc
      subst hc
      exact ⟨hbytes, h.files⟩

/-- The rule for operations on the SFTP channel. -/
theorem withSftp_triple {H : Handler Ssh σ} {P : St Ssh SftpFs σ → Prop} {Q : α → St Ssh SftpFs σ → Prop}
    {E : Option RemoteError → St Ssh SftpFs σ → Prop} {path : PathBuf} {op : SshSftp → PathBuf → Remote SftpFs σ α}
    (hnone : ∀ st, P st → E (some (.new .notConnected)) st)
    (hop : ∀ sftp p, Triple H (fun st => P st ∧ p = absolutize st.self.wrkdir path) (op sftp p) Q E) :
    Triple H P (SftpFs.withSftp path op) Q E := by
  refine .self fun fs => ?_
  cases fs.sftp with
  | none => exact .throw fun st h => hnone st h.1
  | some sftp => exact .self fun k => (hop sftp _).pre fun st h => ⟨h.1.1, by rw [h.2]⟩

theorem orKind_triple {H : Handler Ssh σ} {P : St Ssh SftpFs σ → Prop} {Q : α → St Ssh SftpFs σ → Prop}
    {E : St Ssh SftpFs σ → Prop} {kind : RemoteErrorType} {m : Remote SftpFs σ (Except SshError α)}
    (hm : Triple H P m (Answered Q fun _ => E) fun _ => E) :
    Triple H P (SftpFs.orKind kind m) Q fun _ => E := by
  refine .bind hm fun r => ?_
  cases r with
  | ok a => exact .pure fun st h => h
  | error e => exact .throw fun st h => h

theorem opens_fills {kind : RemoteErrorType} {flags : List OpenFlag} (hflags : .append ∈ flags ∨ .truncate ∈ flags)
    (path : PathBuf) (metadata : Metadata) :
    Triple S.handler (S.At wd s₀ c log₀) (SftpFs.opens kind flags path metadata)
      (fun file => S.Filling file (S.key (absolutize wd path)) s₀
        (if .truncate ∈ flags then [] else s₀.content (S.key (absolutize wd path))) [] c)
      fun _ st => S.files st.env = s₀ := by
  refine withSftp_triple (fun st h => h.files) fun sftp p => orKind_triple (.call fun st h => ?_)
  obtain ⟨h, hp⟩ := h
  rw [h.wrkdir] at hp
  subst hp
  have hobeys := S.obeys (.openMode sftp (absolutize wd path) flags (SftpFs.openMode metadata)) st.env
  cases hr : (S.handler.reply (.openMode sftp (absolutize wd path) flags (SftpFs.openMode metadata)) st.env).1 with
  | error e =>
    rw [hr] at hobeys
    exact hobeys.trans h.files
  | ok file =>
    rw [hr] at hobeys
    obtain ⟨hfiles, hopened, hpending⟩ := hobeys
    rw [h.files] at hfiles
    refine ⟨by rw [List.append_nil]; exact hfiles, hpending.trans h.pending, _, hopened, ?_⟩
    by_cases happ : .append ∈ flags
    · rw [if_pos happ]
      exact Or.inr rfl
    · rw [if_neg happ, if_pos (hflags.resolve_left happ)]
      exact Or.inl rfl

/-- What is known of the files alone. -/
theorem files_idle {m : Remote SftpFs σ α} (hm : Only Idle m) (p : Store ι UInt8 → Prop) :
    Triple S.handler (fun st => p (S.files st.env)) m (fun _ st => p (S.files st.env)) fun _ st => p (S.files st.env) :=
  hm.triple fun call hcall st h => by
    show p (S.files (S.handler.reply call st.env).2)
    rwa [(S.idle hcall st.env).1]

/-- **An upload puts its content behind what the file had**, or a beginning of it, or it has not begun. -/
theorem upload_stores {w : PointerWidth} (fuel : Nat) {kind : RemoteErrorType} {flags : List OpenFlag}
    (hflags : .append ∈ flags ∨ .truncate ∈ flags) (path : PathBuf) {u : Upload} (hu : u.Announced w)
    (hi : i = S.key (absolutize wd path)) (hold : old = if .truncate ∈ flags then [] else s₀.content i) :
    Triple S.handler (S.At wd s₀ u.content log₀)
      (SftpFs.upload w fuel (SftpFs.opens kind flags path u.metadata) u.metadata)
      (fun n st => n.toNat = u.content.length ∧ S.files st.env = s₀.put i (old ++ u.content))
      fun _ st => S.files st.env = s₀ ∨ S.Partly i s₀ old u.content st := by
  have hopen : Triple S.handler (S.At wd s₀ u.content log₀) (SftpFs.opens kind flags path u.metadata)
      (fun file => S.Filling file i s₀ old [] u.content) fun _ st => S.files st.env = s₀ := by
    rw [hold, hi]
    exact opens_fills hflags path u.metadata
  have hsize : u.metadata.size.toNat % w.modulus = u.content.length := by rw [hu.size, Nat.mod_eq_of_lt hu.fits]
  have hlen : u.content.length < 2 ^ 64 := by rw [← hu.size]; exact u.metadata.size.toNat_lt
  refine .bind ((at_idle SftpFs.isConnected_only).conseq (fun _ h => h) (fun _ _ h => h) fun _ _ h => Or.inl h.files)
    fun b => ?_
  refine .ite (fun _ => ?_) fun _ => .throw fun st h => Or.inl h.files
  refine .bind (hopen.conseq (fun _ h => h) (fun _ _ h => h) fun _ _ h => Or.inl h) fun file => ?_
  have hloop : Triple S.handler (fun st => ∃ sent rest, sent ++ rest = u.content ∧ 0 = sent.length ∧
      S.Filling file i s₀ old sent rest st) (transfer w .reader (.remote file) u.metadata.size fuel)
      (fun n st => n = u.content.length ∧ S.files st.env = s₀.put i (old ++ u.content))
      fun _ => S.Partly i s₀ old u.content := by
    unfold transfer
    rw [hsize]
    exact transferLoop_fills w hu.fits fuel fuel 0
  refine .bind (hloop.conseq (fun st h => ⟨[], u.content, rfl, rfl, h⟩)
    (fun _ _ h => h) fun _ _ h => Or.inr h) fun n => ?_
  refine .given fun hn => .bind ((files_idle (SftpFs.onWritten_only _)
    (· = s₀.put i (old ++ u.content))).conseq (fun _ h => h) (fun _ _ h => h) fun _ _ h =>
      Or.inr ⟨u.content, List.prefix_refl _, h⟩) fun _ => .pure fun st h => ⟨?_, h⟩
  rw [hn, UInt64.toNat_ofNat', Nat.mod_eq_of_lt hlen]

/-! ## Downloads -/

theorem writeLoop_hands {got : List UInt8} {n : Nat} (buffer : List UInt8) (fuel delta : Nat)
    (hd : delta ≤ buffer.length) :
    Triple S.handler (S.Handing file i s₀ log₀ n (got ++ buffer.take delta)) (writeLoop .writer buffer fuel delta)
      (fun _ => S.Handing file i s₀ log₀ n (got ++ buffer)) fun _ st => S.files st.env = s₀ := by
  induction fuel generalizing delta with
  | zero => exact .spin fun st h => h.files
  | succ fuel ih =>
    unfold writeLoop
    refine .ite (fun hlt => ?_) fun hge => ?_
    · refine .bind (Q := Answered
          (fun k : Fin ((buffer.drop delta).length + 1) => S.Handing file i s₀ log₀ n (got ++ buffer.take (delta + k)))
          fun _ st => S.files st.env = s₀) (.call fun st h => ?_) fun r => ?_
      · obtain ⟨hfiles, hopened, new, hlog, hgot⟩ := h
        obtain ⟨hfiles', hopened', -⟩ := S.obeys (.writerWrite (buffer.drop delta)) st.env
        cases hr : (S.handler.reply (.writerWrite (buffer.drop delta)) st.env).1 with
        | error e => exact hfiles'.trans hfiles
        | ok k =>
          refine ⟨hfiles'.trans hfiles, ?_, new ++ [⟨.writerWrite (buffer.drop delta), .ok k⟩], ?_, ?_⟩
          · show S.opened (S.handler.reply (.writerWrite (buffer.drop delta)) st.env).2 file = _
            rw [hopened', hopened]
          · show st.log ++ [⟨_, (S.handler.reply (.writerWrite (buffer.drop delta)) st.env).1⟩] = _
            rw [hr, hlog, List.append_assoc]
          · rw [received_append, hgot, List.take_add, ← List.append_assoc]
            simp [received, Sink.taken]
      · cases r with
        | error e => exact .throw fun st h => h
        | ok k =>
          have hk := Nat.lt_succ_iff.1 k.isLt
          have hlen : (buffer.drop delta).length = buffer.length - delta := List.length_drop
          exact ih (delta + k) (by omega)
    · refine .pure fun st h => ?_
      rwa [List.take_of_length_le (by omega)] at h

/-- The loop hands out a beginning of the file, up to the announced size. -/
theorem transferLoop_hands (w : PointerWidth) (hc : s₀ i = some c) (size inner fuel bytes : Nat) :
    Triple S.handler
      (fun st => ∃ got, got <+: c ∧ bytes = got.length % w.modulus ∧ S.Handing file i s₀ log₀ got.length got st)
      (transferLoop w (.remote file) .writer size inner fuel bytes)
      (fun n st => ∃ got, got <+: c ∧ n = got.length % w.modulus ∧ size ≤ n ∧ S.files st.env = s₀ ∧ Handed log₀ got st)
      fun _ st => S.files st.env = s₀ := by
  induction fuel generalizing bytes with
  | zero =>
    refine .spin fun st h => ?_
    obtain ⟨_, -, -, h⟩ := h
    exact h.files
  | succ fuel ih =>
    unfold transferLoop
    refine .ite (fun hlt => ?_) fun hge => ?_
    · refine .bind (Q := Answered
          (fun buffer st => ∃ got, got ++ buffer.val <+: c ∧ bytes = got.length % w.modulus ∧
            S.Handing file i s₀ log₀ (got ++ buffer.val).length got st)
          fun _ st => S.files st.env = s₀) (.call fun st h => ?_) fun r => ?_
      · obtain ⟨got, ⟨left, rfl⟩, hbytes, hfiles, hopened, hhanded⟩ := h
        have hobeys := S.obeys (.fileRead file bufferLen) st.env
        cases hr : (S.handler.reply (.fileRead file bufferLen) st.env).1 with
        | error e =>
          rw [hr] at hobeys
          exact hobeys.trans hfiles
        | ok bs =>
          rw [hr] at hobeys
          obtain ⟨hfiles', hread⟩ := hobeys
          obtain ⟨hpre, hopened'⟩ := hread i got.length (got ++ left) hopened (by rw [hfiles, hc])
          rw [List.drop_left] at hpre
          refine ⟨got, (List.prefix_append_right_inj got).2 hpre, hbytes, hfiles'.trans hfiles, ?_,
            hhanded.asked (by simp)⟩
          rw [List.length_append]
          exact hopened'
      · cases r with
        | error e => exact .throw fun st h => h
        | ok buffer =>
          refine .exists_pre fun got => .given fun hpre => .given fun hbytes => ?_
          have hwrite : Triple S.handler
              (S.Handing file i s₀ log₀ (got ++ buffer.val).length (got ++ buffer.val.take 0))
              (writeLoop .writer buffer.val inner 0)
              (fun _ => S.Handing file i s₀ log₀ (got ++ buffer.val).length (got ++ buffer.val))
              fun _ st => S.files st.env = s₀ := writeLoop_hands buffer.val inner 0 (Nat.zero_le _)
          rw [List.take_zero, List.append_nil] at hwrite
          refine .bind hwrite fun _ => (ih _).pre fun st h => ⟨got ++ buffer.val, hpre, ?_, h⟩
          rw [hbytes, List.length_append, Nat.mod_add_mod]
    · refine .pure fun st h => ?_
      obtain ⟨got, hpre, hbytes, h⟩ := h
      exact ⟨got, hpre, hbytes, Nat.not_lt.1 hge, h.files, h.handed⟩

theorem stat_tells (path : PathBuf) :
    Triple S.handler (S.At wd s₀ c log₀) (SftpFs.stat path)
      (fun f st => (∀ x, s₀ (S.key (absolutize wd path)) = some x → f.metadata.size = UInt64.ofNat x.length) ∧
        S.At wd s₀ c log₀ st) fun _ => S.At wd s₀ c log₀ := by
  refine withSftp_triple (fun st h => h) fun sftp p => ?_
  refine .bind (Q := fun m st => (∀ x, s₀ (S.key (absolutize wd path)) = some x →
    m.size = some (UInt64.ofNat x.length)) ∧
    S.At wd s₀ c log₀ st) (orKind_triple (.call fun st h => ?_)) fun m => .given fun hm => ?_
  · obtain ⟨h, hp⟩ := h
    rw [h.wrkdir] at hp
    subst hp
    have hat : S.At wd s₀ c log₀ (asked S.handler (.stat sftp (absolutize wd path)) st) := by
      obtain ⟨hfiles, -, hpending⟩ := S.idle (c := .stat sftp (absolutize wd path)) trivial st.env
      exact ⟨h.wrkdir, hfiles.trans h.files, hpending.trans h.pending, h.handed.asked (by simp)⟩
    have hobeys := S.obeys (.stat sftp (absolutize wd path)) st.env
    cases hr : (S.handler.reply (.stat sftp (absolutize wd path)) st.env).1 with
    | error e => exact hat
    | ok m =>
      rw [hr] at hobeys
      exact ⟨fun x hx => hobeys.2 x (by rw [h.files, hx]), hat⟩
  · refine .bind (at_idle (SftpFs.linkTarget_only _ m)) fun symlink => .pure fun st h => ⟨fun x hx => ?_, h⟩
    show m.size.getD 0 = _
    rw [hm x hx, Option.getD_some]

theorem openRead_hands (path : PathBuf) (hi : i = S.key (absolutize wd path)) :
    Triple S.handler (S.At wd s₀ c log₀) (SftpFs.openRead path)
      (fun file st => s₀ i ≠ none ∧ S.Handing file i s₀ log₀ 0 [] st) fun _ st => S.files st.env = s₀ := by
  subst hi
  refine .bind (at_idle_files SftpFs.checkConnection_only) fun _ => self_at fun fs hwd => ?_
  rw [hwd]
  refine .bind (at_idle_files (SftpFs.existsOrFalse_only _)) fun b => .ite (fun _ => ?_) fun _ =>
    .throw fun st h => h.files
  refine self_at fun _ _ => .unwrap (fun _ st h => h.files) fun sftp _ => orKind_triple (.call fun st h => ?_)
  have hobeys := S.obeys (.openRead sftp (absolutize wd path)) st.env
  cases hr : (S.handler.reply (.openRead sftp (absolutize wd path)) st.env).1 with
  | error e =>
    rw [hr] at hobeys
    exact hobeys.trans h.files
  | ok file =>
    rw [hr] at hobeys
    obtain ⟨hthere, hfiles, hopened⟩ := hobeys
    rw [h.files] at hthere
    exact ⟨hthere, hfiles.trans h.files, hopened, h.handed.asked (by simp)⟩

/-- **A download hands out the file**, as far as `usize` counts its length, and changes nothing. -/
theorem openFile_hands (w : PointerWidth) (fuel : Nat) (src : PathBuf) (hi : i = S.key (absolutize wd src)) :
    Triple S.handler (S.At wd s₀ c log₀) (SftpFs.openFile w fuel src)
      (fun n st => (∃ x got, s₀ i = some x ∧ got <+: x ∧ Handed log₀ got st ∧
          (x.length < w.modulus → n.toNat = x.length ∧ got = x)) ∧ S.files st.env = s₀)
      fun _ st => S.files st.env = s₀ := by
  have hmod := SftpFs.modulus_le w
  refine .bind (at_idle_files SftpFs.isConnected_only) fun b => ?_
  refine .ite (fun _ => ?_) fun _ => .throw fun st h => h.files
  refine .bind ((stat_tells src).conseq (fun _ h => h) (fun _ _ h => h) fun _ _ h =>
    h.files) fun f => .given fun hsize => ?_
  refine .bind (openRead_hands src hi) fun file => .given fun hthere => ?_
  obtain ⟨x, hx⟩ := Option.ne_none_iff_exists'.1 hthere
  rw [hi] at hx
  have hf := hsize x hx
  rw [← hi] at hx
  refine .bind ((transferLoop_hands w hx _ fuel fuel 0).pre fun st h => ⟨[], List.nil_prefix, (Nat.zero_mod _).symm, h⟩)
    fun n => .exists_pre fun got => .given fun hpre => .given fun hn => .given fun hge => ?_
  have hdone : x.length < w.modulus → (UInt64.ofNat n).toNat = x.length ∧ got = x := by
    intro hlt
    have hle := hpre.length_le
    rw [hf, UInt64.toNat_ofNat', Nat.mod_eq_of_lt (show x.length < 2 ^ 64 by omega), Nat.mod_eq_of_lt hlt] at hge
    rw [Nat.mod_eq_of_lt (by omega)] at hn
    refine ⟨?_, hpre.eq_of_length (by omega)⟩
    rw [UInt64.toNat_ofNat', Nat.mod_eq_of_lt (by omega)]
    omega
  refine .bind (Q := fun _ st => S.files st.env = s₀ ∧ Handed log₀ got st) ?_ fun _ =>
    .pure fun st h => ⟨⟨x, got, hx, hpre, h.2, hdone⟩, h.1⟩
  refine ((SftpFs.onRead_only file).triple (P := fun st => S.files st.env = s₀ ∧
    Handed log₀ got st) fun call hcall st h => ?_).conseq
    (fun _ h => h) (fun _ _ h => h) fun _ _ h => h.1
  refine ⟨(S.idle hcall st.env).1.trans h.1, h.2.asked ?_⟩
  rintro buf rfl
  exact hcall

/-! ## Other operations on files -/

theorem removeFile_removes (path : PathBuf) (hi : i = S.key (absolutize wd path)) :
    Triple S.handler (S.At wd s₀ c log₀) (SftpFs.removeFile path)
      (fun _ st => S.files st.env = (Op.remove i).effect s₀) fun _ st => S.files st.env = s₀ := by
  refine withSftp_triple (fun st h => h.files) fun sftp p => orKind_triple (.call fun st h => ?_)
  obtain ⟨h, hp⟩ := h
  rw [h.wrkdir] at hp
  subst hp
  have hobeys := S.obeys (.unlink sftp (absolutize wd path)) st.env
  cases hr : (S.handler.reply (.unlink sftp (absolutize wd path)) st.env).1 with
  | error e =>
    rw [hr] at hobeys
    exact hobeys.trans h.files
  | ok _ =>
    rw [hr] at hobeys
    rw [hi, ← h.files]
    exact hobeys

theorem mov_renames (src dest : PathBuf) {j : ι} (hi : i = S.key (absolutize wd src))
    (hj : j = S.key (absolutize wd dest)) :
    Triple S.handler (S.At wd s₀ c log₀) (SftpFs.mov src dest)
      (fun _ st => S.files st.env = (Op.rename i j).effect s₀) fun _ st => S.files st.env = s₀ := by
  refine .bind (at_idle_files SftpFs.checkConnection_only) fun _ => self_at fun fs hwd => ?_
  rw [hwd]
  refine .bind (at_idle_files (SftpFs.existsOrFalse_only _)) fun b => .ite (fun _ => ?_) fun _ =>
    .throw fun st h => h.files
  refine self_at fun fs' hwd' => ?_
  rw [hwd']
  refine self_at fun _ _ => .unwrap (fun _ st h => h.files) fun sftp _ => orKind_triple (.call fun st h => ?_)
  have hobeys := S.obeys (.renameOverwrite sftp (absolutize wd src) (absolutize wd dest)) st.env
  cases hr : (S.handler.reply (.renameOverwrite sftp (absolutize wd src) (absolutize wd dest)) st.env).1 with
  | error e =>
    rw [hr] at hobeys
    exact hobeys.trans h.files
  | ok _ =>
    rw [hr] at hobeys
    rw [hi, hj, ← h.files]
    exact hobeys

end

end Storage

end RemotefsSsh
