import RemotefsSsh.Asking
import RemotefsSsh.Servers

/-!
# SFTP transfers (ssh/sftp.rs:470-565)

The three transfers read until the byte count reaches an announced size: `metadata.size` for an
upload, the size of a `stat` reply for a download. `transferLoop_spec` says what one run of that
loop can do; a source answers its `k`-th read with `reads k`, and `Reaches` is the loop's exit.

From it follow when the transfers end (`transfers_end_iff`) and when they move the whole content
(`upload_complete_iff`, `download_complete_iff`). Both turn on the announced size: one that is too
large is never reached, one that is too small is reached too early.
-/

namespace RemotefsSsh

open Utf8 UnixPath Effect Prog

/-! ## Sources and sinks -/

/-- What one read can return. -/
abbrev Chunk := { bs : List UInt8 // bs.length ≤ bufferLen }

/-- The bytes of the first `k` reads. -/
def delivered (reads : Nat → Chunk) : Nat → List UInt8
  | 0 => []
  | k + 1 => delivered reads k ++ (reads k).val

/-- The content `c` is delivered in finitely many reads; the others return nothing. -/
def Content (reads : Nat → Chunk) (c : List UInt8) : Prop :=
  ∃ N, delivered reads N = c ∧ ∀ k, N ≤ k → (reads k).val = []

/-- After `k` reads the byte count has reached the announced size, both as `usize`. -/
def Reaches (w : PointerWidth) (size : UInt64) (reads : Nat → Chunk) (k : Nat) : Prop :=
  size.toNat % w.modulus ≤ (delivered reads k).length % w.modulus

section
variable {reads : Nat → Chunk}

theorem delivered_mono {j k : Nat} (h : j ≤ k) : delivered reads j <+: delivered reads k := by
  induction h with
  | refl => exact List.prefix_refl _
  | step _ ih => exact ih.trans (List.prefix_append _ _)

theorem Content.delivered_le {c : List UInt8} (h : Content reads c) (k : Nat) : delivered reads k <+: c := by
  obtain ⟨N, rfl, hN⟩ := h
  rcases Nat.le_total k N with hk | hk
  · exact delivered_mono hk
  · -- beyond `N` nothing is added
    induction hk with
    | refl => exact List.prefix_refl _
    | @step m hm ih => rw [delivered, hN m hm, List.append_nil]; exact ih

/-- Everything in the first read. -/
def oneRead (c : Chunk) : Nat → Chunk
  | 0 => c
  | _ + 1 => ⟨[], Nat.zero_le _⟩

theorem delivered_oneRead (c : Chunk) (k : Nat) : delivered (oneRead c) (k + 1) = c.val := by
  induction k with
  | zero => rfl
  | succ k ih => rw [delivered, ih]; exact List.append_nil _

theorem content_oneRead (c : Chunk) : Content (oneRead c) c.val := by
  refine ⟨1, delivered_oneRead c 0, fun k hk => ?_⟩
  cases k with
  | zero => omega
  | succ k => rfl

theorem Content.eq_of_length {c : List UInt8} (h : Content reads c) {k : Nat}
    (hk : (delivered reads k).length = c.length) : delivered reads k = c := (h.delivered_le k).eq_of_length hk

end

section
variable {σ : Type} (H : Handler Ssh σ)

def Source.answer (s : σ) : Source → Except IoError Chunk × σ
  | reader => H.reply (.readerRead bufferLen) s
  | remote file => H.reply (.fileRead file bufferLen) s

def Sink.answer (buf : List UInt8) (s : σ) : Sink → Except IoError (Fin (buf.length + 1)) × σ
  | remote file => H.reply (.fileWrite file buf) s
  | writer => H.reply (.writerWrite buf) s

/-- The reads of `src` that succeed answer `reads`, in order; `pos` counts them, and writing to `dst`
does not read. -/
structure Feeds (src : Source) (dst : Sink) (reads : Nat → Chunk) (pos : σ → Nat) : Prop where
  read : ∀ s chunk, (src.answer H s).1 = .ok chunk → chunk = reads (pos s) ∧ pos (src.answer H s).2 = pos s + 1
  kept : ∀ buf s, pos (dst.answer H buf s).2 = pos s

/-- Every write that succeeds takes something. -/
def Progress (dst : Sink) : Prop :=
  ∀ buf s n, buf ≠ [] → (dst.answer H buf s).1 = .ok n → 0 < n.val

/-- Some read or write fails. -/
def Fails (src : Source) (dst : Sink) : Prop :=
  ∃ s e, (src.answer H s).1 = .error e ∨ ∃ buf, (dst.answer H buf s).1 = .error e

end

/-- What a sink takes in a call. -/
def Sink.taken : Sink → Sigma SshCall.Reply → List UInt8
  | .remote f, ⟨.fileWrite file buf, .ok n⟩ => if f = file then buf.take n else []
  | .writer, ⟨.writerWrite buf, .ok n⟩ => buf.take n
  | _, _ => []

/-- What a sink took in a run. -/
def received (dst : Sink) (log : List (Sigma SshCall.Reply)) : List UInt8 := (log.map dst.taken).flatten

@[simp] theorem received_append (dst : Sink) (a b : List (Sigma SshCall.Reply)) :
    received dst (a ++ b) = received dst a ++ received dst b := by simp [received]

section
variable {κ σ : Type} {H : Handler Ssh σ}

/-- The record is as it was and `dst` took `bs`. -/
structure Wrote (dst : Sink) (bs : List UInt8) (st st' : St Ssh κ σ) : Prop where
  self : st'.self = st.self
  log : ∃ new, st'.log = st.log ++ new ∧ received dst new = bs

theorem Wrote.refl (dst : Sink) (st : St Ssh κ σ) : Wrote dst [] st st := ⟨rfl, [], by simp, rfl⟩

theorem Wrote.trans {dst : Sink} {x y : List UInt8} {a b c : St Ssh κ σ} (h : Wrote dst x a b) (h' : Wrote dst y b c) :
    Wrote dst (x ++ y) a c := by
  obtain ⟨hs, n, hn, hx⟩ := h
  obtain ⟨hs', n', hn', hy⟩ := h'
  exact ⟨hs'.trans hs, n ++ n', by rw [hn', hn, List.append_assoc], by rw [received_append, hx, hy]⟩

theorem read_run (src : Source) (dst : Sink) (st : St Ssh κ σ) :
    ∃ st', (src.read : Remote κ σ _) H st = (.ok (src.answer H st.env).1, st') ∧
      st'.env = (src.answer H st.env).2 ∧ Wrote dst [] st st' := by
  cases src <;> cases dst <;> exact ⟨_, rfl, rfl, rfl, [_], rfl, rfl⟩

theorem write_run (dst : Sink) (buf : List UInt8) (st : St Ssh κ σ) :
    ∃ st', (dst.write buf : Remote κ σ _) H st = (.ok (dst.answer H buf st.env).1, st') ∧
      st'.env = (dst.answer H buf st.env).2 ∧
        ∀ n, (dst.answer H buf st.env).1 = .ok n → Wrote dst (buf.take n) st st' := by
  cases dst with
  | remote file =>
    refine ⟨_, rfl, rfl, fun n hn => ⟨rfl, [⟨.fileWrite file buf, .ok n⟩], ?_, ?_⟩⟩
    · rw [← hn]; rfl
    · simp [received, Sink.taken]
  | writer =>
    refine ⟨_, rfl, rfl, fun n hn => ⟨rfl, [⟨.writerWrite buf, .ok n⟩], ?_, ?_⟩⟩
    · rw [← hn]; rfl
    · simp [received, Sink.taken]

end

/-! ## The loops -/

section
variable {κ σ : Type} {H : Handler Ssh σ} {src : Source} {dst : Sink} {reads : Nat → Chunk} {pos : σ → Nat}

/-- The inner loop writes the rest of the buffer, unless a write fails; every iteration uses some of
it up. -/
theorem writeLoop_spec (hF : Feeds H src dst reads pos) (hw : Progress H dst) (buffer : List UInt8) (fuel delta : Nat)
    (st : St Ssh κ σ) (hd : delta ≤ buffer.length) :
    ∃ o st', (writeLoop dst buffer fuel delta : Remote κ σ _) H st = (o, st') ∧ pos st'.env = pos st.env ∧
      ((o = .ok () ∧ Wrote dst (buffer.drop delta) st st') ∨ ((∃ e, o = .err e) ∧ Fails H src dst) ∨
        (o = .spin ∧ fuel + delta ≤ buffer.length)) := by
  induction fuel generalizing delta st with
  | zero => exact ⟨.spin, st, rfl, rfl, Or.inr (Or.inr ⟨rfl, by omega⟩)⟩
  | succ fuel ih =>
    by_cases hlt : delta < buffer.length
    · obtain ⟨st₁, hrun, henv, hwrote⟩ := write_run (H := H) dst (buffer.drop delta) st
      have hpos : pos st₁.env = pos st.env := by rw [henv]; exact hF.kept _ _
      rw [writeLoop, if_pos hlt, bind_ok hrun]
      cases ha : (dst.answer H (buffer.drop delta) st.env).1 with
      | error e => exact ⟨.err _, st₁, rfl, hpos, Or.inr (Or.inl ⟨⟨_, rfl⟩, st.env, e, Or.inr ⟨_, ha⟩⟩)⟩
      | ok n =>
        have hne : buffer.drop delta ≠ [] := by
          rw [Ne, List.drop_eq_nil_iff]; omega
        have hn := hw _ _ n hne ha
        have hlen : (buffer.drop delta).length = buffer.length - delta := List.length_drop
        have hle : n.val ≤ (buffer.drop delta).length := Nat.lt_succ_iff.1 n.isLt
        obtain ⟨o, st', hr, hp, hcases⟩ := ih (delta + n) st₁ (by omega)
        refine ⟨o, st', hr, hp.trans hpos, ?_⟩
        rcases hcases with ⟨ho, hrest⟩ | hfail | ⟨ho, hle'⟩
        · refine Or.inl ⟨ho, ?_⟩
          have h := (hwrote n ha).trans hrest
          rwa [← List.drop_drop, List.take_append_drop] at h
        · exact Or.inr (Or.inl hfail)
        · exact Or.inr (Or.inr ⟨ho, by omega⟩)
    · rw [writeLoop, if_neg hlt]
      refine ⟨.ok (), st, rfl, rfl, Or.inl ⟨rfl, ?_⟩⟩
      rw [List.drop_eq_nil_of_le (by omega)]
      exact Wrote.refl dst st

/-- **The outer loop stops at the first read after which the byte count has reached the size**, with
the bytes of all reads so far written; or a read or write fails; or the steps run out. -/
theorem transferLoop_spec (hF : Feeds H src dst reads pos) (hw : Progress H dst) (w : PointerWidth) (size : UInt64)
    (inner fuel : Nat) (st : St Ssh κ σ) :
    ∃ o st', (transferLoop w src dst (size.toNat % w.modulus) inner fuel
        ((delivered reads (pos st.env)).length % w.modulus) : Remote κ σ _) H st = (o, st') ∧
      ((∃ k bs, o = .ok ((delivered reads k).length % w.modulus) ∧ Reaches w size reads k ∧
          (∀ j, pos st.env ≤ j → j < k → ¬ Reaches w size reads j) ∧
          Wrote dst bs st st' ∧ delivered reads (pos st.env) ++ bs = delivered reads k) ∨
        ((∃ e, o = .err e) ∧ Fails H src dst) ∨
        (o = .spin ∧ (inner ≤ bufferLen ∨ ∀ j, pos st.env ≤ j → j < pos st.env + fuel →
          ¬ Reaches w size reads j))) := by
  induction fuel generalizing st with
  | zero => exact ⟨.spin, st, rfl, Or.inr (Or.inr ⟨rfl, Or.inr fun j h1 h2 => by omega⟩)⟩
  | succ fuel ih =>
    by_cases hlt : (delivered reads (pos st.env)).length % w.modulus < size.toNat % w.modulus
    · have hnot : ¬ Reaches w size reads (pos st.env) := Nat.not_le.2 hlt
      obtain ⟨st₁, hrun, henv, hwrote⟩ := read_run (H := H) src dst st
      rw [transferLoop, if_pos hlt, bind_ok hrun]
      cases ha : (src.answer H st.env).1 with
      | error e => exact ⟨.err _, st₁, rfl, Or.inr (Or.inl ⟨⟨_, rfl⟩, st.env, e, Or.inl ha⟩)⟩
      | ok chunk =>
        obtain ⟨rfl, hnext⟩ := hF.read _ _ ha
        rw [← henv] at hnext
        obtain ⟨o, st₂, hr, hp, hcases⟩ := writeLoop_spec hF hw (reads (pos st.env)).val inner 0 st₁ (Nat.zero_le _)
        simp only [bind_run, hr]
        rcases hcases with ⟨rfl, hrest⟩ | ⟨⟨e, rfl⟩, hfail⟩ | ⟨rfl, hle⟩
        · -- one more read
          have hpos : pos st₂.env = pos st.env + 1 := hp.trans hnext
          have hcount : ((delivered reads (pos st.env)).length % w.modulus +
            (reads (pos st.env)).val.length) % w.modulus =
              (delivered reads (pos st₂.env)).length % w.modulus := by
            rw [hpos, delivered, List.length_append, Nat.mod_add_mod]
          obtain ⟨o, st', hr', hcases⟩ := ih st₂
          rw [← hcount] at hr'
          refine ⟨o, st', hr', ?_⟩
          rcases hcases with ⟨k, bs, ho, hreach, hfirst, hw', hbs⟩ | hfail | ⟨ho, hspin⟩
          · refine Or.inl ⟨k, (reads (pos st.env)).val ++ bs, ho, hreach, ?_, ?_, ?_⟩
            · intro j h1 h2
              rcases Nat.eq_or_lt_of_le h1 with rfl | h1
              · exact hnot
              · exact hfirst j (by omega) h2
            · have h := (hwrote.trans hrest).trans hw'
              simpa using h
            · rw [← List.append_assoc, ← hbs, hpos, delivered]
          · exact Or.inr (Or.inl hfail)
          · refine Or.inr (Or.inr ⟨ho, hspin.imp_right fun h j h1 h2 => ?_⟩)
            rcases Nat.eq_or_lt_of_le h1 with rfl | h1
            · exact hnot
            · exact h j (by omega) (by omega)
        · exact ⟨.err e, st₂, rfl, Or.inr (Or.inl ⟨⟨e, rfl⟩, hfail⟩)⟩
        · have := (reads (pos st.env)).property
          exact ⟨.spin, st₂, rfl, Or.inr (Or.inr ⟨rfl, Or.inl (by omega)⟩)⟩
    · refine ⟨.ok _, st, by rw [transferLoop, if_neg hlt]; rfl, Or.inl ?_⟩
      refine ⟨pos st.env, [], rfl, Nat.not_lt.1 hlt, ?_, Wrote.refl dst st, by simp⟩
      intro j h1 h2
      omega

/-- A transfer from the start of the content. -/
theorem transfer_spec (hF : Feeds H src dst reads pos) (hw : Progress H dst) (w : PointerWidth) (size : UInt64)
    (fuel : Nat) (st : St Ssh κ σ) (h0 : pos st.env = 0) :
    ∃ o st', (transfer w src dst size fuel : Remote κ σ _) H st = (o, st') ∧
      ((∃ k, o = .ok ((delivered reads k).length % w.modulus) ∧ Reaches w size reads k ∧
          (∀ j, j < k → ¬ Reaches w size reads j) ∧ Wrote dst (delivered reads k) st st') ∨
        ((∃ e, o = .err e) ∧ Fails H src dst) ∨
        (o = .spin ∧ (fuel ≤ bufferLen ∨ ∀ j, j < fuel → ¬ Reaches w size reads j))) := by
  obtain ⟨o, st', hr, hcases⟩ := transferLoop_spec (κ := κ) hF hw w size fuel fuel st
  rw [h0] at hr hcases
  have hzero : (delivered reads 0).length % w.modulus = 0 := Nat.zero_mod _
  rw [hzero] at hr
  refine ⟨o, st', hr, ?_⟩
  rcases hcases with ⟨k, bs, ho, hreach, hfirst, hw', rfl⟩ | hfail | ⟨ho, hspin⟩
  · exact Or.inl ⟨k, ho, hreach, fun j hj => hfirst j (Nat.zero_le j) hj, hw'⟩
  · exact Or.inr (Or.inl hfail)
  · exact Or.inr (Or.inr ⟨ho, hspin.imp_right fun h j hj => h j (Nat.zero_le j) (by omega)⟩)

end

/-! ## The three transfers -/

/-- Enough steps lead to an end. -/
def Ends {ε α β : Type} (run : Nat → Out ε α × β) : Prop := ∃ N, ∀ fuel, N ≤ fuel → (run fuel).1 ≠ .spin

/-- The caller's reader. -/
structure ReaderLaw {σ : Type} (H : Handler Ssh σ) (reads : Nat → Chunk) (pos : σ → Nat) : Prop where
  read : ∀ s chunk, (H.reply (.readerRead bufferLen) s).1 = .ok chunk →
    chunk = reads (pos s) ∧ pos (H.reply (.readerRead bufferLen) s).2 = pos s + 1
  kept : ∀ c s, (∀ cap, c ≠ .readerRead cap) → pos (H.reply c s).2 = pos s

/-- The remote file: `fs` is what `stat` says of it, and an open starts at its first byte. -/
structure FileLaw {σ : Type} (H : Handler Ssh σ) (fs : FileStat) (reads : Nat → Chunk) (pos : RemoteFile → σ → Nat) :
    Prop where
  stat : ∀ f p s m, (H.reply (.stat f p) s).1 = .ok m → m = fs
  opened : ∀ f p s file, (H.reply (.openRead f p) s).1 = .ok file → pos file (H.reply (.openRead f p) s).2 = 0
  read : ∀ file s chunk, (H.reply (.fileRead file bufferLen) s).1 = .ok chunk →
    chunk = reads (pos file s) ∧ pos file (H.reply (.fileRead file bufferLen) s).2 = pos file s + 1
  kept : ∀ file buf s, pos file (H.reply (.writerWrite buf) s).2 = pos file s

theorem ReaderLaw.feeds {σ : Type} {H : Handler Ssh σ} {reads : Nat → Chunk} {pos : σ → Nat}
    (h : ReaderLaw H reads pos) (file : RemoteFile) : Feeds H .reader (.remote file) reads pos :=
  ⟨h.read, fun _ s => h.kept _ s (by simp)⟩

theorem FileLaw.feeds {σ : Type} {H : Handler Ssh σ} {fs : FileStat} {reads : Nat → Chunk} {pos : RemoteFile → σ → Nat}
    (h : FileLaw H fs reads pos) (file : RemoteFile) : Feeds H (.remote file) .writer reads (pos file) :=
  ⟨h.read file, h.kept file⟩

/-- Nothing but reading moves the reader. -/
theorem ReaderLaw.along {σ : Type} {H : Handler Ssh σ} {reads : Nat → Chunk} {pos : σ → Nat}
    (h : ReaderLaw H reads pos) : Along H false fun s s' => pos s' = pos s where
  refl _ := rfl
  trans h1 h2 := h2.trans h1
  call c hc s := h.kept c s (by rintro cap rfl; cases hc)

/-- No data is moved by the other calls. -/
theorem received_of_quiet (dst : Sink) {new : List (Sigma SshCall.Reply)} (h : ∀ e ∈ new, Allowed false e.1) :
    received dst new = [] := by
  refine List.flatten_eq_nil_iff.2 fun l hl => ?_
  obtain ⟨e, he, rfl⟩ := List.mem_map.1 hl
  have hc := h e he
  unfold Sink.taken
  split
  · cases hc
  · cases hc
  · rfl

section
variable {κ σ : Type} {H : Handler Ssh σ} {E : σ → σ → Prop}

theorem Wrote.of_quiet {dst : Sink} {st st' : St Ssh κ σ} (h : Quiet (Allowed false) E st st') :
    Wrote dst [] st st' := by
  obtain ⟨hself, _, new, hlog, hnew⟩ := h
  exact ⟨hself, new, hlog, received_of_quiet dst hnew⟩

end

namespace SftpFs

section
variable {σ : Type} {H : Handler Ssh σ} {src : Source} {dst : Sink} {reads : Nat → Chunk}

/-- The end of a run: a transfer of the first `k` reads, an error, or not enough steps. -/
def Outcome (w : PointerWidth) (size : UInt64) (reads : Nat → Chunk) (fuel : Nat) (o : Out RemoteError UInt64)
    (moved : List UInt8 → Prop) : Prop :=
  (∃ k, o = .ok (UInt64.ofNat ((delivered reads k).length % w.modulus)) ∧ Reaches w size reads k ∧
      (∀ j, j < k → ¬ Reaches w size reads j) ∧ moved (delivered reads k)) ∨
    Stopped o ∨ (o = .spin ∧ (fuel ≤ bufferLen ∨ ∀ j, j < fuel → ¬ Reaches w size reads j))

/-- The transfer and the call that ends it. -/
theorem body_spec {pos : σ → Nat} (hF : Feeds H src dst reads pos) (hw : Progress H dst)
    (w : PointerWidth) (size : UInt64)
    (fuel : Nat) (m : Remote SftpFs σ (RemoteResult Unit))
    (hm : ∀ st, ∃ r st', m H st = (.ok r, st') ∧ Wrote dst [] st st') (st : St Ssh SftpFs σ) (h0 : pos st.env = 0) :
    ∃ o st', (do
        let bytes ← transfer w src dst size fuel
        finish m
        pure (UInt64.ofNat bytes) : Remote SftpFs σ UInt64) H st = (o, st') ∧
      Outcome w size reads fuel o fun bs => Wrote dst bs st st' := by
  obtain ⟨o, st₁, hr, hcases⟩ := transfer_spec (κ := SftpFs) hF hw w size fuel st h0
  rcases hcases with ⟨k, rfl, hreach, hfirst, hwrote⟩ | ⟨⟨e, rfl⟩, _⟩ | ⟨rfl, hspin⟩
  · obtain ⟨r, st₂, hr', hquiet⟩ := hm st₁
    rw [bind_ok hr]
    cases r with
    | ok _ =>
      refine ⟨_, st₂, by rw [finish, bind_run, bind_ok hr']; rfl, Or.inl ⟨k, rfl, hreach, hfirst, ?_⟩⟩
      simpa using hwrote.trans hquiet
    | error e => exact ⟨.err e, st₂, by rw [finish, bind_run, bind_ok hr']; rfl, Or.inr (Or.inl (Or.inl ⟨e, rfl⟩))⟩
  · exact ⟨.err e, st₁, bind_err hr, Or.inr (Or.inl (Or.inl ⟨e, rfl⟩))⟩
  · exact ⟨.spin, st₁, by rw [bind_run, hr], Or.inr (Or.inr ⟨rfl, hspin⟩)⟩

end

/-! ## Uploads -/

section
variable {σ : Type} {H : Handler Ssh σ} {reads : Nat → Chunk}

/-- `append` and `create`. -/
def opens (kind : RemoteErrorType) (flags : List OpenFlag) (path : PathBuf) (metadata : Metadata) :
    Remote SftpFs σ RemoteFile :=
  withSftp path fun sftp path => orKind kind (ask (.openMode sftp path flags (openMode metadata)))

/-- A stream was opened, and it took `bs`. -/
def Stored (bs : List UInt8) (st st' : St Ssh SftpFs σ) : Prop :=
  ∃ new f p flags mode stream, st'.log = st.log ++ new ∧
    (⟨.openMode f p flags mode, .ok stream⟩ : Sigma SshCall.Reply) ∈ new ∧ received (.remote stream) new = bs

theorem orKind_ok {α : Type} {kind : RemoteErrorType} {m : Remote SftpFs σ (Except SshError α)} {a : α}
    {st st' : St Ssh SftpFs σ} (h : orKind kind m H st = (.ok a, st')) : m H st = (.ok (.ok a), st') := by
  obtain ⟨r, st₁, hr, hk⟩ := bind_eq_ok h
  cases r with
  | ok b => cases hk; exact hr
  | error e => cases hk

theorem opens_ok {kind : RemoteErrorType} {flags : List OpenFlag} {path : PathBuf} {metadata : Metadata}
    {st st' : St Ssh SftpFs σ} {stream : RemoteFile} (h : opens kind flags path metadata H st = (.ok stream, st')) :
    ∃ f p mode, st'.log = st.log ++ [⟨.openMode f p flags mode, .ok stream⟩] := by
  unfold opens withSftp at h
  rw [bind_ok self_run] at h
  cases hs : st.self.sftp with
  | none => rw [hs] at h; cases h
  | some f =>
    rw [hs] at h
    obtain ⟨_, _, hself, hk⟩ := bind_eq_ok h
    cases hself
    exact ⟨f, _, _, (ask_ok (orKind_ok hk)).2.2.1⟩

theorem opens_built (k : SftpFs) (kind : RemoteErrorType) (flags : List OpenFlag) (path : PathBuf)
    (metadata : Metadata) :
    Built (Piece k.handles.scope) True (fun _ => False) k false
      [.openMode (absolutize k.wrkdir path) flags (openMode metadata)] (fun _ => True)
      (opens kind flags path metadata : Remote SftpFs σ _) := by
  refine withSftp_built fun f hf => .work_look (request_built (c := .openMode f _ _ _) hf) fun r _ => ?_
  cases r with
  | ok stream => exact .pure trivial
  | error e => exact .throw fun _ => id

theorem upload_spec {pos : σ → Nat} (hR : ReaderLaw H reads pos) (hW : ∀ file, Progress H (.remote file))
    (w : PointerWidth) (fuel : Nat) (kind : RemoteErrorType) (flags : List OpenFlag) (path : PathBuf)
    (metadata : Metadata) (st : St Ssh SftpFs σ) (h0 : pos st.env = 0) :
    ∃ o st', upload w fuel (opens kind flags path metadata) metadata H st = (o, st') ∧
      Outcome w metadata.size reads fuel o fun bs => Stored bs st st' := by
  have hstop : ∀ r : Out RemoteError UInt64 × St Ssh SftpFs σ, Stopped r.1 →
      ∃ o st', r = (o, st') ∧ Outcome w metadata.size reads fuel o fun bs => Stored bs st st' :=
    fun r hr => ⟨r.1, r.2, rfl, Or.inr (Or.inl hr)⟩
  unfold upload
  have hup : ∀ k : SftpFs, Built (Piece k.handles.scope) True Refused k true [] _ (isConnected : Remote SftpFs σ _) :=
    fun k => isConnected_built k.handles.covers.sees
  rcases (halts_of_built hup fun _ => rfl).bind_cases _ H st with ⟨b, st₁, h₁, hgo⟩ | hs
  · rw [hgo]
    have hq₁ := (Asks.of_looks (p := fun _ => True) hR.along (fun k _ => hup k) st trivial).1
    rw [h₁] at hq₁
    cases b with
    | false => exact hstop _ (Or.inl ⟨_, rfl⟩)
    | true =>
      have hopen := fun k => opens_built (σ := σ) k kind flags path metadata
      rw [if_pos rfl]
      rcases (halts_of_built hopen fun _ => rfl).bind_cases _ H st₁ with ⟨stream, st₂, h₂, hgo₂⟩ | hs
      · rw [hgo₂]
        have hasks : Asks H false (fun s s' => pos s' = pos s) (fun _ : SftpFs => True)
            (opens kind flags path metadata) :=
          .of_looks hR.along fun k _ => hopen k
        have hq₂ := (hasks st₁ trivial).1
        rw [h₂] at hq₂
        have hpos : pos st₂.env = 0 := by rw [hq₂.env, hq₁.env, h0]
        obtain ⟨o, st', hr, hout⟩ := body_spec (hR.feeds stream) (hW stream) w metadata.size fuel
          (ask (.onWritten stream))
          (fun s => ⟨_, _, rfl, rfl, [_], rfl, rfl⟩) st₂ hpos
        refine ⟨o, st', hr, hout.imp_left ?_⟩
        rintro ⟨k, ho, hreach, hfirst, ⟨_, n₃, hn₃, hbs⟩⟩
        obtain ⟨f, p, mode, hn₂⟩ := opens_ok h₂
        obtain ⟨n₁, hn₁, hall₁⟩ := hq₁.log
        refine ⟨k, ho, hreach, hfirst, n₁ ++ ([⟨.openMode f p flags mode, .ok stream⟩] ++ n₃), f, p, flags, mode,
          stream, ?_, by simp, ?_⟩
        · rw [hn₃, hn₂, hn₁]; simp
        · rw [received_append, received_append, received_of_quiet _ hall₁, hbs]
          rfl
      · exact hstop _ hs
  · exact hstop _ hs

end

/-! ## Downloads -/

section
variable {σ : Type} {H : Handler Ssh σ} {reads : Nat → Chunk} {fs : FileStat} {pos : RemoteFile → σ → Nat}

theorem stat_ok (hL : FileLaw H fs reads pos) {path : PathBuf} {file : File} {st st' : St Ssh SftpFs σ}
    (h : stat path H st = (.ok file, st')) : st.self.sftp.isSome = true ∧ file.metadata.size = fs.size.getD 0 := by
  unfold stat withSftp at h
  rw [bind_ok self_run] at h
  cases hs : st.self.sftp with
  | none => rw [hs] at h; cases h
  | some f =>
    rw [hs] at h
    obtain ⟨_, _, hself, hk⟩ := bind_eq_ok h
    cases hself
    obtain ⟨m, st₁, hm, hk⟩ := bind_eq_ok hk
    obtain ⟨_, _, _, hk⟩ := bind_eq_ok hk
    cases hk
    rw [hL.stat _ _ _ _ (ask_ok (orKind_ok hm)).1]
    exact ⟨rfl, rfl⟩

theorem openRead_ok (hL : FileLaw H fs reads pos) {path : PathBuf} {stream : RemoteFile} {st st' : St Ssh SftpFs σ}
    (h : openRead path H st = (.ok stream, st')) : pos stream st'.env = 0 := by
  obtain ⟨_, st₁, _, h⟩ := bind_eq_ok h
  obtain ⟨_, st₂, _, h⟩ := bind_eq_ok h
  obtain ⟨b, st₃, _, h⟩ := bind_eq_ok h
  cases b with
  | false => cases h
  | true =>
    obtain ⟨_, st₄, _, h⟩ := bind_eq_ok h
    obtain ⟨f, st₅, _, h⟩ := bind_eq_ok h
    obtain ⟨hr, henv, _⟩ := ask_ok (orKind_ok h)
    rw [henv]
    exact hL.opened _ _ _ _ hr

theorem openFile_spec (hL : FileLaw H fs reads pos) (hW : Progress H .writer) (w : PointerWidth) (fuel : Nat)
    (src : PathBuf) (st : St Ssh SftpFs σ) :
    ∃ o st', openFile w fuel src H st = (o, st') ∧
      Outcome w (fs.size.getD 0) reads fuel o fun bs => Wrote .writer bs st st' := by
  have hstop : ∀ r : Out RemoteError UInt64 × St Ssh SftpFs σ, Stopped r.1 →
      ∃ o st', r = (o, st') ∧ Outcome w (fs.size.getD 0) reads fuel o fun bs => Wrote .writer bs st st' :=
    fun r hr => ⟨r.1, r.2, rfl, Or.inr (Or.inl hr)⟩
  have hA := along_any H false
  unfold openFile
  have hup : ∀ k : SftpFs, Built (Piece k.handles.scope) True Refused k true []
    (fun r => r = true → k.session.isSome = true)
      (isConnected : Remote SftpFs σ _) := fun k => isConnected_built k.handles.covers.sees
  have hstat : ∀ k : SftpFs, Built (Piece k.handles.scope) True Refused k false [] (fun _ => True)
      (stat src : Remote SftpFs σ _) := fun k => stat_built k.handles.covers.sees src
  have hread : ∀ k : SftpFs, Built (Piece k.handles.scope) (Paired k) Refused k false [] (fun _ => True)
      (openRead src : Remote SftpFs σ _) := fun k => openRead_built k.handles.covers src
  rcases (halts_of_built hup fun _ => rfl).bind_cases _ H st with ⟨b, st₁, h₁, hgo⟩ | hs
  · rw [hgo]
    have hq₁ := (Asks.of_looks (p := fun _ => True) hA (fun k _ => hup k) st trivial).1
    rw [h₁] at hq₁
    cases b with
    | false => exact hstop _ (Or.inl ⟨_, rfl⟩)
    | true =>
      rw [if_pos rfl]
      rcases (halts_of_built hstat fun _ => rfl).bind_cases _ H st₁ with ⟨file, st₂, h₂, hgo₂⟩ | hs
      · rw [hgo₂]
        have hq₂ := (Asks.of_looks (p := fun _ => True) hA (fun k _ => hstat k) st₁ trivial).1
        rw [h₂] at hq₂
        obtain ⟨hsftp, hsize⟩ := stat_ok hL h₂
        rcases (halts_of_built hread fun _ => rfl).bind_cases _ H st₂ with ⟨stream, st₃, h₃, hgo₃⟩ | hs
        · rw [hgo₃]
          -- both handles are there by now
          have hpair : Paired st₂.self := by
            unfold Paired
            rw [hq₂.self, hsftp, hq₁.self]
            exact (value_of_built (hup _) h₁).1 rfl
          have hq₃ := (Asks.of_built (p := Paired) hA (fun k _ => hread k) (fun _ h => h)
            (fun _ _ => Handles.makes_allowed) st₂ hpair).1
          rw [h₃] at hq₃
          obtain ⟨o, st', hr, hout⟩ := body_spec (hL.feeds stream) hW w file.metadata.size fuel (ask (.onRead stream))
            (fun s => ⟨_, _, rfl, rfl, [_], rfl, rfl⟩) st₃ (openRead_ok hL h₃)
          rw [hsize] at hout
          refine ⟨o, st', hr, hout.imp_left ?_⟩
          rintro ⟨k, ho, hreach, hfirst, hwrote⟩
          exact ⟨k, ho, hreach, hfirst, (((Wrote.of_quiet hq₁).trans (.of_quiet hq₂)).trans
            (.of_quiet hq₃)).trans hwrote⟩
        · exact hstop _ hs
      · exact hstop _ hs
  · exact hstop _ hs

end

/-! ## A server that answers everything -/

/-- The first `cap` bytes. -/
def clip (bs : List UInt8) (cap : Nat) : { bs : List UInt8 // bs.length ≤ cap } :=
  ⟨bs.take cap, by rw [List.length_take]; exact Nat.min_le_left _ _⟩

/-- The reader and every remote file deliver `reads`; the state is how far each has been read. -/
def streamServer (reads : Nat → Chunk) (fs : FileStat) : Handler Ssh (Nat × Nat) where
  reply
    | .readerRead cap, s => (.ok (clip (reads s.1).val cap), (s.1 + 1, s.2))
    | .fileRead _ cap, s => (.ok (clip (reads s.2).val cap), (s.1, s.2 + 1))
    | .openRead .., s => (.ok ⟨0⟩, (s.1, 0))
    | .stat .., s => (.ok fs, s)
    | c, s => (okReply c, s)

/-- A connected client in front of it. -/
def streamStart : St Ssh SftpFs (Nat × Nat) := ⟨⟨some ⟨0⟩, some ⟨0⟩, ['/'], .new []⟩, (0, 0), []⟩

section
variable (reads : Nat → Chunk) (fs : FileStat)

theorem clip_chunk (c : Chunk) : clip c.val bufferLen = c := Subtype.ext (List.take_of_length_le c.property)

theorem streamServer_reader : ReaderLaw (streamServer reads fs) reads Prod.fst where
  read s chunk h := by
    cases h
    exact ⟨clip_chunk _, rfl⟩
  kept c s hc := by
    cases c with
    | readerRead cap => exact absurd rfl (hc cap)
    | _ => rfl

theorem streamServer_file : FileLaw (streamServer reads fs) fs reads fun _ s => s.2 where
  stat f p s m h := by cases h; rfl
  opened f p s file h := rfl
  read file s chunk h := by
    cases h
    exact ⟨clip_chunk _, rfl⟩
  kept file buf s := rfl

theorem streamServer_progress (dst : Sink) : Progress (streamServer reads fs) dst := by
  intro buf s n hne h
  have hn : n = Fin.last buf.length := by cases dst <;> (cases h; rfl)
  rw [hn]
  exact List.length_pos_iff.2 hne

theorem streamServer_not_fails (src : Source) (dst : Sink) : ¬ Fails (streamServer reads fs) src dst := by
  rintro ⟨s, e, h | ⟨buf, h⟩⟩
  · cases src <;> cases h
  · cases dst <;> cases h

end

/-- Without failures a transfer is not stopped. -/
theorem body_not_stopped {σ : Type} {H : Handler Ssh σ} {src : Source} {dst : Sink}
    {reads : Nat → Chunk} {pos : σ → Nat}
    (hF : Feeds H src dst reads pos) (hw : Progress H dst) (hok : ¬ Fails H src dst) (w : PointerWidth) (size : UInt64)
    (fuel : Nat) (m : Remote SftpFs σ (RemoteResult Unit)) (hm : ∀ st, ∃ st', m H st = (.ok (.ok ()), st'))
    (st : St Ssh SftpFs σ) (h0 : pos st.env = 0) :
    ¬ Stopped ((do
        let bytes ← transfer w src dst size fuel
        finish m
        pure (UInt64.ofNat bytes) : Remote SftpFs σ UInt64) H st).1 := by
  obtain ⟨o, st₁, hr, hcases⟩ := transfer_spec (κ := SftpFs) hF hw w size fuel st h0
  rcases hcases with ⟨k, rfl, _⟩ | ⟨_, hfail⟩ | ⟨rfl, _⟩
  · obtain ⟨st₂, hr'⟩ := hm st₁
    rw [bind_ok hr, finish, bind_run, bind_ok hr']
    rintro (⟨e, h⟩ | ⟨p, h⟩) <;> cases h
  · exact absurd hfail hok
  · rw [bind_run, hr]
    rintro (⟨e, h⟩ | ⟨p, h⟩) <;> cases h

theorem upload_streamServer (reads : Nat → Chunk) (fs : FileStat) (w : PointerWidth) (fuel : Nat)
    (kind : RemoteErrorType) (flags : List OpenFlag) (path : PathBuf) (metadata : Metadata) :
    ¬ Stopped (upload w fuel (opens kind flags path metadata) metadata (streamServer reads fs) streamStart).1 :=
  body_not_stopped (streamServer_reader reads fs |>.feeds ⟨0⟩) (streamServer_progress reads fs _)
    (streamServer_not_fails reads fs _ _) w metadata.size fuel (ask (.onWritten ⟨0⟩)) (fun _ => ⟨_, rfl⟩) _ rfl

section
variable (reads : Nat → Chunk) (fs : FileStat) {st : St Ssh SftpFs (Nat × Nat)}

theorem linkTarget_streamServer (path : PathBuf) (hs : st.self.sftp = some ⟨0⟩) :
    ∃ t st', linkTarget path fs (streamServer reads fs) st = (.ok t, st') ∧ st'.self = st.self := by
  unfold linkTarget
  split
  · rw [bind_ok self_run, hs]
    exact ⟨_, _, rfl, rfl⟩
  · exact ⟨_, _, rfl, rfl⟩

theorem stat_streamServer (path : PathBuf) (hs : st.self.sftp = some ⟨0⟩) :
    ∃ file st', stat path (streamServer reads fs) st = (.ok file, st') ∧ st'.self = st.self := by
  unfold stat withSftp
  rw [bind_ok self_run, hs]
  dsimp only
  rw [bind_ok self_run]
  let st₁ : St Ssh SftpFs (Nat × Nat) :=
    ⟨st.self, st.env, st.log ++ [⟨.stat ⟨0⟩ (absolutize st.self.wrkdir path), .ok fs⟩]⟩
  have hstat : orKind .noSuchFileOrDirectory (ask (.stat ⟨0⟩ (absolutize st.self.wrkdir path)))
      (streamServer reads fs) st = (.ok fs, st₁) := rfl
  rw [bind_ok hstat]
  obtain ⟨t, st₂, h₂, hself⟩ := linkTarget_streamServer reads fs (absolutize st.self.wrkdir path)
    (show st₁.self.sftp = some ⟨0⟩ from hs)
  rw [makeFsentry, bind_ok h₂]
  exact ⟨_, st₂, rfl, hself⟩

theorem openRead_streamServer (path : PathBuf) (hs : st.self.sftp = some ⟨0⟩)
    (hsession : st.self.session = some ⟨0⟩) :
    ∃ st', openRead path (streamServer reads fs) st = (.ok ⟨0⟩, st') := by
  let st₁ : St Ssh SftpFs (Nat × Nat) := ⟨st.self, st.env, st.log ++ [⟨.authenticated ⟨0⟩, true⟩]⟩
  have hcheck : checkConnection (streamServer reads fs) st = (.ok (), st₁) := by
    have hc : isConnected (streamServer reads fs) st = (.ok true, st₁) := by
      rw [isConnected, bind_ok self_run, hsession]
      rfl
    rw [checkConnection, bind_ok hc]
    rfl
  obtain ⟨file, st₂, h₂, hself⟩ := stat_streamServer reads fs (absolutize st.self.wrkdir path)
    (show st₁.self.sftp = some ⟨0⟩ from hs)
  have hexists : existsOrFalse (absolutize st.self.wrkdir path) (streamServer reads fs) st₁ = (.ok true, st₂) := by
    have h : existsPath (absolutize st.self.wrkdir path) (streamServer reads fs) st₁ = (.ok true, st₂) := by
      rw [existsPath, bind_ok (attempt_ok h₂)]
      rfl
    rw [existsOrFalse, bind_ok (attempt_ok h)]
    rfl
  rw [openRead, bind_ok hcheck, bind_ok self_run, bind_ok hexists, if_pos rfl, bind_ok self_run, hself]
  exact ⟨_, by rw [hs]; rfl⟩

end

theorem openFile_streamServer (reads : Nat → Chunk) (fs : FileStat) (w : PointerWidth) (fuel : Nat) (src : PathBuf) :
    ¬ Stopped (openFile w fuel src (streamServer reads fs) streamStart).1 := by
  let st₁ : St Ssh SftpFs (Nat × Nat) := ⟨streamStart.self, (0, 0), [⟨.authenticated ⟨0⟩, true⟩]⟩
  have hc : isConnected (streamServer reads fs) streamStart = (.ok true, st₁) := rfl
  obtain ⟨file, st₂, h₂, hself⟩ := stat_streamServer reads fs src (show st₁.self.sftp = some ⟨0⟩ from rfl)
  obtain ⟨st₃, h₃⟩ := openRead_streamServer reads fs src (show st₂.self.sftp = some ⟨0⟩ by rw [hself]; rfl)
    (by rw [hself]; rfl)
  rw [openFile, bind_ok hc, if_pos rfl, bind_ok h₂, bind_ok h₃]
  exact body_not_stopped ((streamServer_file reads fs).feeds ⟨0⟩) (streamServer_progress reads fs _)
    (streamServer_not_fails reads fs _ _) w file.metadata.size fuel (ask (.onRead ⟨0⟩)) (fun _ => ⟨_, rfl⟩) _
    (openRead_ok (streamServer_file reads fs) h₃)

/-! ## When transfers end -/

section
variable {w : PointerWidth} {size : UInt64} {reads : Nat → Chunk} {β : Type}

theorem ends_of_reaches {run : Nat → Out RemoteError UInt64 × β}
    (hout : ∀ fuel, ∃ moved, Outcome w size reads fuel (run fuel).1 moved) (h : ∃ k, Reaches w size reads k) :
    Ends run := by
  obtain ⟨k, hk⟩ := h
  refine ⟨max (k + 1) (bufferLen + 1), fun fuel hfuel hspin => ?_⟩
  obtain ⟨moved, ⟨_, ho, _⟩ | (⟨_, ho⟩ | ⟨_, ho⟩) | ⟨_, hle | hnot⟩⟩ := hout fuel
  · rw [ho] at hspin; cases hspin
  · rw [ho] at hspin; cases hspin
  · rw [ho] at hspin; cases hspin
  · omega
  · exact hnot k (by omega) hk

theorem reaches_of_ends {run : Nat → Out RemoteError UInt64 × β}
    (hout : ∀ fuel, ∃ moved, Outcome w size reads fuel (run fuel).1 moved) (hgo : ∀ fuel, ¬ Stopped (run fuel).1)
    (h : Ends run) : ∃ k, Reaches w size reads k := by
  obtain ⟨N, hN⟩ := h
  obtain ⟨moved, ⟨k, _, hk, _⟩ | hs | ⟨ho, _⟩⟩ := hout N
  · exact ⟨k, hk⟩
  · exact absurd hs (hgo N)
  · exact absurd ho (hN N (le_refl N))

/-- For content that fits, the announced size is reached when it is at most what there is. -/
theorem exists_reaches_iff {c : List UInt8} (hc : Content reads c) (hfits : c.length < w.modulus) :
    (∃ k, Reaches w size reads k) ↔ size.toNat % w.modulus ≤ c.length := by
  constructor
  · rintro ⟨k, hk⟩
    exact (hk.trans (Nat.mod_le _ _)).trans (hc.delivered_le k).length_le
  · intro h
    obtain ⟨N, hN, _⟩ := hc
    exact ⟨N, by rw [Reaches, hN, Nat.mod_eq_of_lt hfits]; exact h⟩

end

/-- **A transfer ends, whatever reader, writer and server do, exactly when the byte count reaches the
announced size after some number of reads.** -/
theorem transfers_end_iff (w : PointerWidth) (reads : Nat → Chunk) (path : PathBuf)
    (metadata : Metadata) (fs : FileStat) :
    ((∀ (σ : Type) (H : Handler Ssh σ) (pos : σ → Nat) (st : St Ssh SftpFs σ), ReaderLaw H reads pos →
        (∀ file, Progress H (.remote file)) → pos st.env = 0 → Ends fun fuel => createFile w fuel path metadata H st) ↔
      ∃ k, Reaches w metadata.size reads k) ∧
    ((∀ (σ : Type) (H : Handler Ssh σ) (pos : σ → Nat) (st : St Ssh SftpFs σ), ReaderLaw H reads pos →
        (∀ file, Progress H (.remote file)) → pos st.env = 0 → Ends fun fuel => appendFile w fuel path metadata H st) ↔
      ∃ k, Reaches w metadata.size reads k) ∧
    ((∀ (σ : Type) (H : Handler Ssh σ) (pos : RemoteFile → σ → Nat) (st : St Ssh SftpFs σ), FileLaw H fs reads pos →
        Progress H .writer → Ends fun fuel => openFile w fuel path H st) ↔
      ∃ k, Reaches w (fs.size.getD 0) reads k) := by
  have hup : ∀ kind flags,
      (∀ (σ : Type) (H : Handler Ssh σ) (pos : σ → Nat) (st : St Ssh SftpFs σ), ReaderLaw H reads pos →
        (∀ file, Progress H (.remote file)) → pos st.env = 0 →
          Ends fun fuel => upload w fuel (opens kind flags path metadata) metadata H st) ↔
      ∃ k, Reaches w metadata.size reads k := by
    intro kind flags
    constructor
    · intro h
      have hend := h _ _ _ streamStart (streamServer_reader reads fs) (fun _ => streamServer_progress reads fs _) rfl
      refine reaches_of_ends (fun fuel => ?_) (fun fuel =>
        upload_streamServer reads fs w fuel kind flags path metadata) hend
      obtain ⟨o, st', hr, hout⟩ := upload_spec (streamServer_reader reads fs)
        (fun _ => streamServer_progress reads fs _)
        w fuel kind flags path metadata streamStart rfl
      exact ⟨_, by rw [hr]; exact hout⟩
    · intro hk σ H pos st hR hW h0
      refine ends_of_reaches (fun fuel => ?_) hk
      obtain ⟨o, st', hr, hout⟩ := upload_spec hR hW w fuel kind flags path metadata st h0
      exact ⟨_, by rw [hr]; exact hout⟩
  refine ⟨hup _ _, hup _ _, ?_, ?_⟩
  · intro h
    have hend := h _ _ _ streamStart (streamServer_file reads fs) (streamServer_progress reads fs _)
    refine reaches_of_ends (fun fuel => ?_) (fun fuel => openFile_streamServer reads fs w fuel path) hend
    obtain ⟨o, st', hr, hout⟩ := openFile_spec (streamServer_file reads fs)
      (streamServer_progress reads fs _) w fuel path
      streamStart
    exact ⟨_, by rw [hr]; exact hout⟩
  · intro hk σ H pos st hL hW
    refine ends_of_reaches (fun fuel => ?_) hk
    obtain ⟨o, st', hr, hout⟩ := openFile_spec hL hW w fuel path st
    exact ⟨_, by rw [hr]; exact hout⟩

/-- `hi` in one read, and a `stat` reply without a size. -/
def hi : Chunk := ⟨[104, 105], by decide⟩

def noStat : FileStat := ⟨none, none, none, none, none, none⟩

/-- An announced size one byte too large. -/
theorem createFile_never_ends :
    ¬ Ends fun fuel => createFile .w64 fuel "/f".toList (.ofSize 3) (streamServer (oneRead hi) noStat) streamStart := by
  intro h
  have hreach : ∃ k, Reaches .w64 3 (oneRead hi) k := by
    refine reaches_of_ends (fun fuel => ?_) (fun fuel => upload_streamServer _ _ _ fuel _ _ _ _) h
    obtain ⟨o, st', hr, hout⟩ := upload_spec (streamServer_reader (oneRead hi) noStat)
      (fun _ => streamServer_progress _ _ _) .w64 fuel .fileCreateDenied [.create, .write, .truncate] "/f".toList
      (.ofSize 3) streamStart rfl
    exact ⟨_, by rw [hr]; exact hout⟩
  exact absurd ((exists_reaches_iff (content_oneRead hi) (by decide)).1 hreach) (by decide)

/-! ## When they move everything -/

/-- No read but the last brings the byte count to the announced size, and the count holds the length. -/
def Whole (w : PointerWidth) (size : UInt64) (reads : Nat → Chunk) (c : List UInt8) : Prop :=
  ∀ k, Reaches w size reads k → (delivered reads k).length = c.length ∧ c.length < w.modulus

theorem modulus_le (w : PointerWidth) : w.modulus ≤ 2 ^ 64 := by cases w <;> decide

theorem modulus_pos (w : PointerWidth) : 0 < w.modulus := by cases w <;> decide

section
variable {w : PointerWidth} {size : UInt64} {reads : Nat → Chunk} {c : List UInt8} {fuel : Nat} {β : Type}

theorem toNat_count (k : Nat) :
    (UInt64.ofNat ((delivered reads k).length % w.modulus)).toNat = (delivered reads k).length % w.modulus := by
  have h1 := Nat.mod_lt (delivered reads k).length (modulus_pos w)
  have h2 := modulus_le w
  rw [UInt64.toNat_ofNat', Nat.mod_eq_of_lt (by omega)]

theorem Outcome.whole {n : UInt64} {moved : List UInt8 → Prop} (h : Outcome w size reads fuel (.ok n) moved)
    (hc : Content reads c) (hwhole : Whole w size reads c) : moved c ∧ n.toNat = c.length := by
  obtain ⟨k, ho, hreach, _, hmoved⟩ | (⟨_, ho⟩ | ⟨_, ho⟩) | ⟨ho, _⟩ := h
  · cases ho
    obtain ⟨hlen, hfits⟩ := hwhole k hreach
    rw [hc.eq_of_length hlen] at hmoved
    exact ⟨hmoved, by rw [toNat_count, hlen, Nat.mod_eq_of_lt hfits]⟩
  · cases ho
  · cases ho
  · cases ho

theorem whole_of_counts (run : Nat → Out RemoteError UInt64 × β)
    (hout : ∀ fuel, ∃ moved, Outcome w size reads fuel (run fuel).1 moved) (hgo : ∀ fuel, ¬ Stopped (run fuel).1)
    (hc : Content reads c) (hcount : ∀ fuel n, (run fuel).1 = .ok n → n.toNat = c.length) : Whole w size reads c := by
  intro k hk
  obtain ⟨N, hN⟩ := ends_of_reaches hout ⟨k, hk⟩
  obtain ⟨moved, ⟨j, ho, hj, hfirst, _⟩ | hs | ⟨ho, _⟩⟩ := hout N
  · have hn := hcount N _ ho
    rw [toNat_count] at hn
    have hle := (hc.delivered_le j).length_le
    have hmod := Nat.mod_le (delivered reads j).length w.modulus
    have hlt := Nat.mod_lt (delivered reads j).length (modulus_pos w)
    -- the run stopped at `j`, which is not after `k`
    have hjk : j ≤ k := by
      by_contra hlt
      exact hfirst k (Nat.not_le.1 hlt) hk
    have h1 : (delivered reads j).length ≤ (delivered reads k).length := (delivered_mono hjk).length_le
    have h2 := (hc.delivered_le k).length_le
    omega
  · exact absurd hs (hgo N)
  · exact absurd ho (hN N (le_refl N))

end

/-- **An upload stores the content, and counts it, whatever reader, writer and server do, exactly when
no read but the last brings the byte count to `metadata.size`.** -/
theorem upload_complete_iff (w : PointerWidth) {reads : Nat → Chunk} {c : List UInt8} (hc : Content reads c)
    (path : PathBuf) (metadata : Metadata) :
    ((∀ (σ : Type) (H : Handler Ssh σ) (pos : σ → Nat) (st : St Ssh SftpFs σ), ReaderLaw H reads pos →
        (∀ file, Progress H (.remote file)) → pos st.env = 0 → ∀ fuel n st',
          createFile w fuel path metadata H st = (.ok n, st') → Stored c st st' ∧ n.toNat = c.length) ↔
      Whole w metadata.size reads c) ∧
    ((∀ (σ : Type) (H : Handler Ssh σ) (pos : σ → Nat) (st : St Ssh SftpFs σ), ReaderLaw H reads pos →
        (∀ file, Progress H (.remote file)) → pos st.env = 0 → ∀ fuel n st',
          appendFile w fuel path metadata H st = (.ok n, st') → Stored c st st' ∧ n.toNat = c.length) ↔
      Whole w metadata.size reads c) := by
  have hup : ∀ kind flags,
      (∀ (σ : Type) (H : Handler Ssh σ) (pos : σ → Nat) (st : St Ssh SftpFs σ), ReaderLaw H reads pos →
        (∀ file, Progress H (.remote file)) → pos st.env = 0 → ∀ fuel n st',
          upload w fuel (opens kind flags path metadata) metadata H st = (.ok n, st') →
            Stored c st st' ∧ n.toNat = c.length) ↔
      Whole w metadata.size reads c := by
    intro kind flags
    let fs := noStat
    constructor
    · intro h
      have hall := h _ _ _ streamStart (streamServer_reader reads fs) (fun _ => streamServer_progress reads fs _) rfl
      refine whole_of_counts
        (fun fuel => upload w fuel (opens kind flags path metadata) metadata (streamServer reads fs) streamStart)
        (fun fuel => ?_) (fun fuel => upload_streamServer reads fs w fuel kind flags path metadata) hc ?_
      · obtain ⟨o, st', hr, hout⟩ := upload_spec (streamServer_reader reads fs)
          (fun _ => streamServer_progress reads fs _)
          w fuel kind flags path metadata streamStart rfl
        exact ⟨_, by rw [hr]; exact hout⟩
      · intro fuel n hn
        exact (hall fuel n _ (Prod.ext hn rfl)).2
    · intro hwhole σ H pos st hR hW h0 fuel n st' hrun
      obtain ⟨o, st₁, hr, hout⟩ := upload_spec hR hW w fuel kind flags path metadata st h0
      cases hrun.symm.trans hr
      exact hout.whole hc hwhole
  exact ⟨hup _ _, hup _ _⟩

/-! ### Short reads and writes -/

/-- `hi` and `!` in two reads. -/
def pieces : Nat → Chunk
  | 0 => hi
  | 1 => ⟨[33], by decide⟩
  | _ + 2 => ⟨[], Nat.zero_le _⟩

theorem delivered_pieces (k : Nat) : delivered pieces (k + 2) = [104, 105, 33] := by
  induction k with
  | zero => rfl
  | succ k ih => rw [delivered, ih]; exact List.append_nil _

theorem content_pieces : Content pieces [104, 105, 33] := by
  refine ⟨2, delivered_pieces 0, fun k hk => ?_⟩
  obtain ⟨j, rfl⟩ := Nat.exists_eq_add_of_le' hk
  rfl

theorem whole_pieces : Whole .w64 3 pieces [104, 105, 33] := by
  intro k hk
  match k, hk with
  | 0, hk => exact absurd hk (by unfold Reaches; decide)
  | 1, hk => exact absurd hk (by unfold Reaches; decide)
  | k + 2, _ => exact ⟨by rw [delivered_pieces], by decide⟩

/-- The reader and the remote files deliver `reads`, and a write takes one byte. -/
def slowServer (reads : Nat → Chunk) (fs : FileStat) : Handler Ssh (Nat × Nat) where
  reply
    | .fileWrite _ buf, s => (.ok ⟨min 1 buf.length, by omega⟩, s)
    | .writerWrite buf, s => (.ok ⟨min 1 buf.length, by omega⟩, s)
    | c, s => (streamServer reads fs).reply c s

section
variable (reads : Nat → Chunk) (fs : FileStat)

theorem slowServer_reader : ReaderLaw (slowServer reads fs) reads Prod.fst where
  read s chunk h := (streamServer_reader reads fs).read s chunk h
  kept c s hc := by
    cases c with
    | fileWrite file buf => rfl
    | writerWrite buf => rfl
    | _ => exact (streamServer_reader reads fs).kept _ s hc

theorem slowServer_file : FileLaw (slowServer reads fs) fs reads fun _ s => s.2 where
  stat f p s m h := (streamServer_file reads fs).stat f p s m h
  opened _ _ _ _ _ := rfl
  read file s chunk h := (streamServer_file reads fs).read file s chunk h
  kept _ _ _ := rfl

theorem slowServer_progress (dst : Sink) : Progress (slowServer reads fs) dst := by
  intro buf s n hne h
  have hlen := List.length_pos_iff.2 hne
  have hn : n = ⟨min 1 buf.length, by omega⟩ := by cases dst <;> (cases h; rfl)
  rw [hn]
  exact Nat.lt_min.2 ⟨Nat.one_pos, hlen⟩

end

/-- Two reads, and three writes. -/
theorem upload_complete_pieces :
    Stored [104, 105, 33] streamStart
      (createFile .w64 4 "/f".toList (.ofSize 3) (slowServer pieces noStat) streamStart).2 := by
  have hrun : (createFile .w64 4 "/f".toList (.ofSize 3) (slowServer pieces noStat) streamStart).1 = .ok 3 := by
    decide +kernel
  generalize hr : createFile .w64 4 "/f".toList (.ofSize 3) (slowServer pieces noStat) streamStart = r at hrun ⊢
  obtain ⟨o, st'⟩ := r
  cases hrun
  exact ((upload_complete_iff .w64 content_pieces "/f".toList (.ofSize 3)).1.2 whole_pieces _ _ _ _
    (slowServer_reader _ _) (fun _ => slowServer_progress _ _ _) rfl 4 3 st' hr).1

/-- `Metadata::default()` uploads nothing. -/
theorem createFile_default_empty :
    (createFile .w64 1 "/f".toList (.ofSize 0) (streamServer (oneRead hi) noStat) streamStart).1 = .ok 0 ∧
      received (.remote ⟨0⟩)
        (createFile .w64 1 "/f".toList (.ofSize 0) (streamServer (oneRead hi) noStat) streamStart).2.log = [] ∧
      Content (oneRead hi) hi.val ∧ hi.val ≠ [] :=
  ⟨by decide +kernel, by decide +kernel, content_oneRead hi, by decide⟩

/-- **A download hands the content to the writer, and counts it, whatever server and writer do, exactly
when no read but the last brings the byte count to the size of the `stat` reply.** -/
theorem download_complete_iff (w : PointerWidth) {reads : Nat → Chunk} {c : List UInt8} (hc : Content reads c)
    (src : PathBuf) (fs : FileStat) :
    (∀ (σ : Type) (H : Handler Ssh σ) (pos : RemoteFile → σ → Nat) (st : St Ssh SftpFs σ), FileLaw H fs reads pos →
        Progress H .writer → ∀ fuel n st', openFile w fuel src H st = (.ok n, st') →
          Wrote .writer c st st' ∧ n.toNat = c.length) ↔
      Whole w (fs.size.getD 0) reads c := by
  constructor
  · intro h
    have hall := h _ _ _ streamStart (streamServer_file reads fs) (streamServer_progress reads fs _)
    refine whole_of_counts (fun fuel => openFile w fuel src (streamServer reads fs) streamStart)
      (fun fuel => ?_) (fun fuel => openFile_streamServer reads fs w fuel src) hc ?_
    · obtain ⟨o, st', hr, hout⟩ := openFile_spec (streamServer_file reads fs)
        (streamServer_progress reads fs _) w fuel src
        streamStart
      exact ⟨_, by rw [hr]; exact hout⟩
    · intro fuel n hn
      exact (hall fuel n _ (Prod.ext hn rfl)).2
  · intro hwhole σ H pos st hL hW fuel n st' hrun
    obtain ⟨o, st₁, hr, hout⟩ := openFile_spec hL hW w fuel src st
    cases hrun.symm.trans hr
    exact hout.whole hc hwhole

theorem download_complete_pieces :
    Wrote .writer [104, 105, 33] streamStart
      (openFile .w64 4 "/f".toList (slowServer pieces { noStat with size := some 3 }) streamStart).2 := by
  have hrun : (openFile .w64 4 "/f".toList (slowServer pieces { noStat with size := some 3 })
    streamStart).1 = .ok 3 := by
    decide +kernel
  generalize hr : openFile .w64 4 "/f".toList (slowServer pieces { noStat with size := some 3 })
    streamStart = r at hrun ⊢
  obtain ⟨o, st'⟩ := r
  cases hrun
  exact ((download_complete_iff .w64 content_pieces "/f".toList { noStat with size := some 3 }).2 whole_pieces _ _ _ _
    (slowServer_file _ _) (slowServer_progress _ _ _) 4 3 st' hr).1

/-- Without a size in the `stat` reply nothing is downloaded. -/
theorem openFile_no_size_empty :
    (openFile .w64 1 "/f".toList (streamServer (oneRead hi) noStat) streamStart).1 = .ok 0 ∧
      received .writer (openFile .w64 1 "/f".toList (streamServer (oneRead hi) noStat) streamStart).2.log = [] ∧
      Content (oneRead hi) hi.val ∧ hi.val ≠ [] :=
  ⟨by decide +kernel, by decide +kernel, content_oneRead hi, by decide⟩

end SftpFs

end RemotefsSsh
