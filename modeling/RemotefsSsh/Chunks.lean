import RemotefsSsh.Transfer

/-!
# Chunking in the SFTP transfers (ssh/sftp.rs:470-565)

How the source cuts its content into reads, and how much each write takes, does not matter: the sink
gets the first `n` bytes, where `n` is what the transfer returns (`chunking_exact`). The count is a
64-bit number that wraps, so this needs content shorter than 2^64 bytes or an announced size that is
not within one buffer of 2^64.
-/

namespace RemotefsSsh

open Utf8 UnixPath Effect Prog

namespace SftpFs

/-- `bs` are the first `n` bytes of what the source delivers. -/
def FirstBytes (reads : Nat → Chunk) (n : UInt64) (bs : List UInt8) : Prop :=
  bs.length = n.toNat ∧ ∃ k, bs <+: delivered reads k

/-- A transfer of `size` bytes that returns `n` and hands over `bs`. -/
structure Chunked (size n : UInt64) (reads : Nat → Chunk) (bs : List UInt8) : Prop where
  first : FirstBytes reads n bs
  enough : size.toNat ≤ n.toNat
  short : n.toNat < size.toNat + bufferLen

/-- The byte count does not wrap before it reaches the size. -/
def Fits (size : UInt64) (reads : Nat → Chunk) : Prop :=
  (∀ k, (delivered reads k).length < 2 ^ 64) ∨ size.toNat + bufferLen ≤ 2 ^ 64

section
variable {size n : UInt64} {reads : Nat → Chunk} {fuel k : Nat}

theorem length_delivered_succ (reads : Nat → Chunk) (k : Nat) :
    (delivered reads (k + 1)).length ≤ (delivered reads k).length + bufferLen := by
  have h := (reads k).property
  rw [delivered, List.length_append]
  omega

theorem not_reaches_iff : ¬ Reaches .w64 size reads k ↔ (delivered reads k).length % 2 ^ 64 < size.toNat := by
  have hsize : size.toNat % PointerWidth.w64.modulus = size.toNat := Nat.mod_eq_of_lt size.toNat_lt
  unfold Reaches
  rw [hsize, Nat.not_le]
  rfl

/-- Up to the read that reaches the size nothing has wrapped. -/
theorem length_lt_of_fits (hfits : Fits size reads) (hfirst : ∀ j, j < k → ¬ Reaches .w64 size reads j) :
    (delivered reads k).length < 2 ^ 64 := by
  rcases hfits with h | h
  · exact h k
  · induction k with
    | zero => exact Nat.two_pow_pos 64
    | succ j ih =>
      have hlt := ih fun i hi => hfirst i (Nat.lt_succ_of_lt hi)
      have hj := not_reaches_iff.1 (hfirst j (Nat.lt_succ_self j))
      rw [Nat.mod_eq_of_lt hlt] at hj
      have hstep := length_delivered_succ reads j
      omega

/-- The read that reaches the size goes beyond it by less than a buffer. -/
theorem length_lt_of_first (hfirst : ∀ j, j < k → ¬ Reaches .w64 size reads j) (hfits : Fits size reads) :
    (delivered reads k).length < size.toNat + bufferLen := by
  cases k with
  | zero =>
    have hlen : (delivered reads 0).length = 0 := rfl
    have hbuf : bufferLen = 65535 := rfl
    omega
  | succ j =>
    have hlt := length_lt_of_fits hfits fun i hi => hfirst i (Nat.lt_succ_of_lt hi)
    have hj := not_reaches_iff.1 (hfirst j (Nat.lt_succ_self j))
    rw [Nat.mod_eq_of_lt hlt] at hj
    have hstep := length_delivered_succ reads j
    omega

theorem Outcome.chunked {moved : List UInt8 → Prop} (hfits : Fits size reads)
    (h : Outcome .w64 size reads fuel (.ok n) moved) : ∃ bs, moved bs ∧ Chunked size n reads bs := by
  obtain ⟨k, ho, hreach, hfirst, hmoved⟩ | (⟨_, ho⟩ | ⟨_, ho⟩) | ⟨ho, _⟩ := h
  · cases ho
    have hlt := length_lt_of_fits hfits hfirst
    have hcount : (UInt64.ofNat ((delivered reads k).length % PointerWidth.w64.modulus)).toNat =
        (delivered reads k).length := by
      rw [toNat_count]
      exact Nat.mod_eq_of_lt hlt
    refine ⟨delivered reads k, hmoved, ⟨hcount.symm, k, List.prefix_refl _⟩, ?_, ?_⟩
    · by_contra hlt'
      rw [hcount, Nat.not_le] at hlt'
      have hnot : ¬ Reaches .w64 size reads k := not_reaches_iff.2 (by rw [Nat.mod_eq_of_lt hlt]; exact hlt')
      exact hnot hreach
    · rw [hcount]
      exact length_lt_of_first hfirst hfits
  · cases ho
  · cases ho
  · cases ho

end

/-- **The sink of a transfer that returns `n` got exactly the first `n` bytes**, at least the announced
size and less than a buffer more, however reads and writes are cut, as long as the count does not wrap. -/
theorem chunking_exact (reads : Nat → Chunk) (path : PathBuf) (metadata : Metadata) (fs : FileStat) :
    (Fits metadata.size reads →
      ∀ (σ : Type) (H : Handler Ssh σ) (pos : σ → Nat) (st : St Ssh SftpFs σ), ReaderLaw H reads pos →
        (∀ file, Progress H (.remote file)) → pos st.env = 0 → ∀ fuel n st',
          (createFile .w64 fuel path metadata H st = (.ok n, st') →
            ∃ bs, Stored bs st st' ∧ Chunked metadata.size n reads bs) ∧
          (appendFile .w64 fuel path metadata H st = (.ok n, st') →
            ∃ bs, Stored bs st st' ∧ Chunked metadata.size n reads bs)) ∧
    (Fits (fs.size.getD 0) reads →
      ∀ (σ : Type) (H : Handler Ssh σ) (pos : RemoteFile → σ → Nat) (st : St Ssh SftpFs σ), FileLaw H fs reads pos →
        Progress H .writer → ∀ fuel n st', openFile .w64 fuel path H st = (.ok n, st') →
          ∃ bs, Wrote .writer bs st st' ∧ Chunked (fs.size.getD 0) n reads bs) := by
  constructor
  · intro hfits σ H pos st hR hW h0 fuel n st'
    have hup : ∀ kind flags, upload .w64 fuel (opens kind flags path metadata) metadata H st = (.ok n, st') →
        ∃ bs, Stored bs st st' ∧ Chunked metadata.size n reads bs := by
      intro kind flags hrun
      obtain ⟨o, st₁, hr, hout⟩ := upload_spec hR hW .w64 fuel kind flags path metadata st h0
      cases hrun.symm.trans hr
      exact hout.chunked hfits
    exact ⟨hup _ _, hup _ _⟩
  · intro hfits σ H pos st hL hW fuel n st' hrun
    obtain ⟨o, st₁, hr, hout⟩ := openFile_spec hL hW .w64 fuel path st
    cases hrun.symm.trans hr
    exact hout.chunked hfits

/-- Two reads, and three writes. -/
theorem chunking_exact_pieces :
    ∃ bs, Stored bs streamStart (createFile .w64 4 "/f".toList (.ofSize 3) (slowServer pieces noStat) streamStart).2 ∧
      Chunked 3 3 pieces bs := by
  have hrun : (createFile .w64 4 "/f".toList (.ofSize 3) (slowServer pieces noStat) streamStart).1 = .ok 3 := by
    decide +kernel
  generalize hr : createFile .w64 4 "/f".toList (.ofSize 3) (slowServer pieces noStat) streamStart = r at hrun ⊢
  obtain ⟨o, st'⟩ := r
  cases hrun
  exact ((chunking_exact pieces "/f".toList (.ofSize 3) noStat).1 (Or.inr (by decide)) _ _ _ _
    (slowServer_reader _ _) (fun _ => slowServer_progress _ _ _) rfl 4 3 st').1 hr

/-! ## A count that wraps -/

/-- The first read is one byte short of the buffer, all others fill it. -/
def offset : Nat → Chunk
  | 0 => ⟨List.replicate 65534 0, by rw [List.length_replicate]; decide⟩
  | _ + 1 => ⟨List.replicate 65535 0, by rw [List.length_replicate]; exact Nat.le_refl _⟩

theorem offset_zero : (offset 0).val = List.replicate 65534 0 := rfl

theorem offset_succ (k : Nat) : (offset (k + 1)).val = List.replicate 65535 0 := rfl

theorem length_offset (k : Nat) : (delivered offset (k + 1)).length + 1 = 65535 * (k + 1) := by
  induction k with
  | zero =>
    have hlen : (delivered offset 1).length = 65534 := by
      rw [delivered, delivered, List.nil_append, offset_zero, List.length_replicate]
    rw [Nat.zero_add, hlen]
  | succ k ih =>
    have hlast : (offset (k + 1)).val.length = 65535 := by rw [offset_succ, List.length_replicate]
    rw [delivered, List.length_append, hlast]
    omega

/-- The counts below 2^64 all miss the largest 64-bit number. -/
theorem reaches_offset {k : Nat} (h : Reaches .w64 18446744073709551615 offset k) :
    18446744073709551615 ≤ (delivered offset k).length ∧
      18446744073709551616 ≤ (delivered offset k).length := by
  cases k with
  | zero =>
    have hmod : 18446744073709551615 ≤ 0 % 18446744073709551616 := h
    omega
  | succ k =>
    have hlen := length_offset k
    have hmod : 18446744073709551615 ≤ (delivered offset (k + 1)).length % 18446744073709551616 := h
    omega

theorem reaches_offset_of {k : Nat} (hk : k + 1 = 18446744073709551616) :
    Reaches .w64 18446744073709551615 offset (k + 1) := by
  have hlen := length_offset k
  have hmod : (delivered offset (k + 1)).length % 18446744073709551616 = 18446744073709551615 := by omega
  exact Nat.le_of_eq hmod.symm

/-- A download whose count wraps: more bytes than it says. -/
theorem openFile_count_wraps : ∃ fuel n st',
    openFile .w64 fuel "/f".toList (streamServer offset { noStat with size := some 18446744073709551615 }) streamStart =
        (.ok n, st') ∧
      ¬ ∃ bs, Wrote .writer bs streamStart st' ∧ Chunked 18446744073709551615 n offset bs := by
  let fs : FileStat := { noStat with size := some 18446744073709551615 }
  have hspec : ∀ fuel, ∃ o st', openFile .w64 fuel "/f".toList (streamServer offset fs) streamStart = (o, st') ∧
      Outcome .w64 18446744073709551615 offset fuel o fun bs => Wrote .writer bs streamStart st' := fun fuel =>
    openFile_spec (streamServer_file offset fs) (streamServer_progress offset fs _) .w64 fuel "/f".toList streamStart
  have hout : ∀ fuel, ∃ moved, Outcome .w64 18446744073709551615 offset fuel
      (openFile .w64 fuel "/f".toList (streamServer offset fs) streamStart).1 moved := fun fuel => by
    obtain ⟨o, st', hr, hout⟩ := hspec fuel
    exact ⟨_, by rw [hr]; exact hout⟩
  obtain ⟨N, hN⟩ := ends_of_reaches hout
    ⟨_, reaches_offset_of (k := 18446744073709551615) (by omega)⟩
  obtain ⟨o, st', hr, ⟨k, ho, hreach, _, hwrote⟩ | hstop | ⟨ho, _⟩⟩ := hspec N
  · subst ho
    refine ⟨N, _, st', hr, ?_⟩
    rintro ⟨bs, hbs, hchunk⟩
    -- the log fixes what was written
    obtain ⟨_, new, hlog, hrec⟩ := hwrote
    obtain ⟨_, new', hlog', hrec'⟩ := hbs
    have hnew : new' = new := List.append_cancel_left (hlog'.symm.trans hlog)
    have hbs : bs = delivered offset k := by rw [← hrec', ← hrec, hnew]
    have hlen := hchunk.first.1
    rw [hbs] at hlen
    have hbig := (reaches_offset hreach).2
    have hsmall := UInt64.toNat_lt (UInt64.ofNat ((delivered offset k).length % PointerWidth.w64.modulus))
    omega
  · exact absurd hstop (by have h := openFile_streamServer offset fs .w64 N "/f".toList; rwa [hr] at h)
  · exact absurd ho (by have h := hN N (Nat.le_refl N); dsimp only at h; rwa [hr] at h)

end SftpFs

end RemotefsSsh
