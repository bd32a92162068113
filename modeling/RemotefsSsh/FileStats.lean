import RemotefsSsh.Hosts

/-!
# Attributes on their way to the server and back (ssh/sftp.rs:61-139)

`metadata_to_filestat` writes the record of a SETSTAT request and `make_fsentry` reads those of the server. What was
written is read back, with the times in whole seconds; the bits that a server adds above the nine permission bits are
not seen (`makeFsentry_filestat`). A time that `SystemTime` cannot hold is read as the epoch. On a server that keeps
what it is given, `stat` returns what `setstat` set (`stat_setstat`).
-/

namespace RemotefsSsh

open Utf8 UnixPath Effect Prog

/-! ## Times -/

/-- Without the fraction of a second. -/
def SystemTime.wholeSecs (t : SystemTime) : SystemTime :=
  ⟨t.secs, 0, t.secs_i64, Nat.zero_lt_of_lt t.nanos_lt⟩

theorem toNat_secsSinceEpoch {t : SystemTime} (h : 0 ≤ t.secs) :
    t.secsSinceEpoch.map (fun u => (u.toNat : Int)) = some t.secs := by
  have hbound := t.secs_i64.2
  unfold SystemTime.secsSinceEpoch
  rw [if_pos h, Option.map_some, UInt64.toNat_ofNat_of_lt' (by rw [UInt64.size]; omega), Int.toNat_of_nonneg h]

namespace SftpFs

theorem timeOfSecs_nonneg (x : UInt64) : 0 ≤ (timeOfSecs x).secs := by
  have hepoch : SystemTime.UNIX_EPOCH.secs = 0 := rfl
  unfold timeOfSecs SystemTime.checkedAddSecs
  split
  · show 0 ≤ SystemTime.UNIX_EPOCH.secs + (x.toNat : Int)
    omega
  · show 0 ≤ SystemTime.UNIX_EPOCH.secs
    omega

theorem timeOfSecs_of_toNat {x : UInt64} {t : SystemTime} (h : (x.toNat : Int) = t.secs) :
    timeOfSecs x = t.wholeSecs := by
  have hsum : SystemTime.UNIX_EPOCH.secs + (x.toNat : Int) = t.secs := by rw [h]; exact Int.zero_add _
  have hbound := t.secs_i64.2
  unfold timeOfSecs SystemTime.checkedAddSecs SystemTime.wholeSecs
  rw [dif_pos (by omega), Option.getD_some, SystemTime.mk.injEq]
  exact ⟨hsum, rfl⟩

/-- A time that is written is read in whole seconds. -/
theorem timeOfSecs_secsSinceEpoch {t : SystemTime} (h : 0 ≤ t.secs) :
    t.secsSinceEpoch.map timeOfSecs = some t.wholeSecs := by
  obtain ⟨x, hx, hsecs⟩ := Option.map_eq_some_iff.1 (toNat_secsSinceEpoch h)
  rw [hx, Option.map_some, timeOfSecs_of_toNat hsecs]

theorem map_timeOfSecs {o : Option SystemTime} (h : ∀ t, o = some t → 0 ≤ t.secs) :
    (o.bind SystemTime.secsSinceEpoch).map timeOfSecs = o.map SystemTime.wholeSecs := by
  cases o with
  | none => rfl
  | some t => exact timeOfSecs_secsSinceEpoch (h t rfl)

end SftpFs

/-! ## Permissions -/

namespace UnixPex

theorem ofU32_toU32 (p : UnixPex) : ofU32 p.toU32 = p := by
  obtain ⟨⟨ur, uw, ux⟩, ⟨gr, gw, gx⟩, ⟨r, w, x⟩⟩ := p
  revert ur uw ux gr gw gx r w x
  decide +kernel

/-- There is no file type in the permissions. -/
theorem toU32_typeBits (p : UnixPex) : p.toU32 &&& 0o170000 = 0 := by
  obtain ⟨⟨ur, uw, ux⟩, ⟨gr, gw, gx⟩, ⟨r, w, x⟩⟩ := p
  revert ur uw ux gr gw gx r w x
  decide +kernel

theorem or_class {x bits : UInt32} (n : UInt32) (h : bits &&& 0o777 = 0)
    (hn : ((0o777 : UInt32) >>> n) &&& 7 = 7) :
    ((x ||| bits) >>> n) &&& 7 = (x >>> n) &&& 7 := by
  have hbits : (bits >>> n) &&& 7 = 0 := by
    calc (bits >>> n) &&& 7 = (bits >>> n) &&& (((0o777 : UInt32) >>> n) &&& 7) := by rw [hn]
      _ = ((bits &&& 0o777) >>> n) &&& 7 := by rw [UInt32.shiftRight_and, UInt32.and_assoc]
      _ = 0 := by rw [h, UInt32.zero_shiftRight, UInt32.zero_and]
  have hdistrib : ((x >>> n) ||| (bits >>> n)) &&& 7 = ((x >>> n) &&& 7) ||| ((bits >>> n) &&& 7) :=
    UInt32.toBitVec_inj.1 BitVec.and_or_distrib_right
  rw [UInt32.shiftRight_or, hdistrib, hbits, UInt32.or_zero]

/-- Only the nine permission bits are read. -/
theorem ofU32_or {x bits : UInt32} (h : bits &&& 0o777 = 0) : ofU32 (x ||| bits) = ofU32 x := by
  have hothers : (x ||| bits) &&& 7 = x &&& 7 := by
    have h0 := or_class (x := x) 0 h (by decide)
    rwa [UInt32.shiftRight_zero, UInt32.shiftRight_zero] at h0
  unfold ofU32
  rw [or_class 6 h (by decide), or_class 3 h (by decide), hothers]

end UnixPex

/-! ## Records -/

/-- The record with bits added to the mode that it has. -/
def FileStat.withTypeBits (s : FileStat) (bits : UInt32) : FileStat := { s with perm := s.perm.map fun p => p ||| bits }

/-- What an entry takes over from the record of the server. -/
structure Decoded (s : FileStat) (m : Metadata) : Prop where
  uid : m.uid = s.uid
  gid : m.gid = s.gid
  mode : m.mode = s.perm.map UnixPex.ofU32
  size : m.size = s.size.getD 0
  accessed : m.accessed = s.atime.map SftpFs.timeOfSecs
  modified : m.modified = s.mtime.map SftpFs.timeOfSecs

/-- The attributes of `m`, with its times in whole seconds. -/
structure Restored (m m' : Metadata) : Prop where
  uid : m'.uid = m.uid
  gid : m'.gid = m.gid
  mode : m'.mode = m.mode
  size : m'.size = m.size
  accessed : m'.accessed = m.accessed.map SystemTime.wholeSecs
  modified : m'.modified = m.modified.map SystemTime.wholeSecs

/-- No time before the epoch. -/
def Metadata.SinceEpoch (m : Metadata) : Prop := ∀ t, m.accessed = some t ∨ m.modified = some t → 0 ≤ t.secs

theorem Decoded.sinceEpoch {s : FileStat} {m : Metadata} (h : Decoded s m) : m.SinceEpoch := by
  have hread : ∀ {o : Option UInt64} {t : SystemTime}, o.map SftpFs.timeOfSecs = some t → 0 ≤ t.secs := by
    intro o t ht
    obtain ⟨x, -, rfl⟩ := Option.map_eq_some_iff.1 ht
    exact SftpFs.timeOfSecs_nonneg x
  rintro t (ht | ht)
  · exact hread (h.accessed ▸ ht)
  · exact hread (h.modified ▸ ht)

namespace SftpFs

variable {m m' : Metadata}

theorem isSymlink_filestat (m : Metadata) : (metadataToFilestat m).isSymlink = false := by
  have hbits : (metadataToFilestat m).fileTypeBits = 0 := by
    show (m.mode.map UnixPex.toU32).getD 0 &&& 0o170000 = 0
    cases m.mode with
    | none => rfl
    | some p => exact p.toU32_typeBits
  unfold FileStat.isSymlink
  rw [hbits]
  rfl

theorem withTypeBits_zero (s : FileStat) : s.withTypeBits 0 = s := by
  obtain ⟨size, uid, gid, perm, atime, mtime⟩ := s
  cases perm <;> simp [FileStat.withTypeBits]

theorem restored_of_decoded (bits : UInt32) (hm : m.SinceEpoch) (hbits : bits &&& 0o777 = 0)
    (h : Decoded ((metadataToFilestat m).withTypeBits bits) m') : Restored m m' where
  uid := h.uid
  gid := h.gid
  mode := by
    rw [h.mode]
    show ((m.mode.map UnixPex.toU32).map fun p => p ||| bits).map UnixPex.ofU32 = m.mode
    cases m.mode with
    | none => rfl
    | some p => simp only [Option.map_some, UnixPex.ofU32_or hbits, UnixPex.ofU32_toU32]
  size := h.size
  accessed := h.accessed.trans (map_timeOfSecs fun t ht => hm t (Or.inl ht))
  modified := h.modified.trans (map_timeOfSecs fun t ht => hm t (Or.inr ht))

/-! ## Entries -/

section
variable {σ : Type} {H : Handler Ssh σ} {st st' : St Ssh SftpFs σ} {s : FileStat}

theorem linkTarget_run (hf : s.isSymlink = true → ∃ f, st.self.sftp = some f) (path : PathBuf) :
    ∃ o st', linkTarget path s H st = (.ok o, st') := by
  unfold linkTarget
  by_cases hl : s.isSymlink = true
  · obtain ⟨f, hf⟩ := hf hl
    rw [if_pos hl, bind_ok self_run, hf, bind_ok (unwrap_run f), bind_ok (ask_run _ _)]
    cases (H.reply (.readlink f path) st.env).1 with
    | ok p => exact ⟨some p, _, rfl⟩
    | error e => exact ⟨none, _, rfl⟩
  · rw [if_neg hl]
    exact ⟨none, st, rfl⟩

/-- An entry is made of every record; for that of a symbolic link the channel must be there. -/
theorem makeFsentry_run (hf : s.isSymlink = true → ∃ f, st.self.sftp = some f) (path : PathBuf) :
    ∃ file st', makeFsentry path s H st = (.ok file, st') := by
  obtain ⟨o, st', hrun⟩ := linkTarget_run (H := H) hf path
  unfold makeFsentry
  rw [bind_ok hrun]
  exact ⟨_, st', rfl⟩

theorem makeFsentry_decoded {path : PathBuf} {file : File} (h : makeFsentry path s H st = (.ok file, st')) :
    file.path = path ∧ Decoded s file.metadata := by
  unfold makeFsentry at h
  obtain ⟨symlink, st₁, -, h⟩ := bind_eq_ok h
  cases h
  exact ⟨rfl, rfl, rfl, rfl, rfl, rfl, rfl⟩

end

/-- The times of an entry are since the epoch, whatever the server told. -/
theorem stat_sinceEpoch {σ : Type} {H : Handler Ssh σ} {st st' : St Ssh SftpFs σ} {path : PathBuf} {file : File}
    (h : stat path H st = (.ok file, st')) : file.metadata.SinceEpoch := by
  obtain ⟨sftp, -, h⟩ := withSftp_eq_ok h
  obtain ⟨s, st₁, -, h⟩ := bind_eq_ok h
  exact (makeFsentry_decoded h).2.sinceEpoch

theorem makeFsentries_sinceEpoch {σ : Type} {H : Handler Ssh σ} {st st' : St Ssh SftpFs σ}
    {es : List (PathBuf × FileStat)} {files : List File} (h : makeFsentries es H st = (.ok files, st')) :
    ∀ file ∈ files, file.metadata.SinceEpoch := by
  induction es generalizing files st st' with
  | nil =>
    cases h
    exact fun file hfile => absurd hfile List.not_mem_nil
  | cons e es ih =>
    unfold makeFsentries at h
    obtain ⟨entry, st₁, h₁, h⟩ := bind_eq_ok h
    obtain ⟨rest, st₂, h₂, h⟩ := bind_eq_ok h
    cases h
    intro file hfile
    rcases List.mem_cons.1 hfile with rfl | hfile
    · exact (makeFsentry_decoded h₁).2.sinceEpoch
    · exact ih h₂ file hfile

theorem listDir_sinceEpoch {σ : Type} {H : Handler Ssh σ} {st st' : St Ssh SftpFs σ} {path : PathBuf}
    {files : List File} (h : listDir path H st = (.ok files, st')) : ∀ file ∈ files, file.metadata.SinceEpoch := by
  obtain ⟨sftp, -, h⟩ := withSftp_eq_ok h
  obtain ⟨es, st₁, -, h⟩ := bind_eq_ok h
  exact makeFsentries_sinceEpoch h

/-- **What `metadata_to_filestat` writes `make_fsentry` reads back, with or without the type bits of a server, and of no
record it makes an entry with a time before the epoch.** -/
theorem makeFsentry_filestat {σ : Type} (H : Handler Ssh σ) (st : St Ssh SftpFs σ) (path : PathBuf) :
    (∀ m : Metadata, m.SinceEpoch →
      (∃ file st', makeFsentry path (metadataToFilestat m) H st = (.ok file, st') ∧ Restored m file.metadata) ∧
      ∀ bits : UInt32, bits &&& 0o777 = 0 →
        (((metadataToFilestat m).withTypeBits bits).isSymlink = true → ∃ f, st.self.sftp = some f) →
        ∃ file st', makeFsentry path ((metadataToFilestat m).withTypeBits bits) H st = (.ok file, st') ∧
          Restored m file.metadata) ∧
    ∀ s : FileStat, (s.isSymlink = true → ∃ f, st.self.sftp = some f) →
      ∃ file st', makeFsentry path s H st = (.ok file, st') ∧ file.metadata.SinceEpoch := by
  constructor
  · intro m hm
    constructor
    · have hplain : (metadataToFilestat m).isSymlink = true → ∃ f, st.self.sftp = some f := by
        rw [isSymlink_filestat]
        intro h
        cases h
      obtain ⟨file, st', hrun⟩ := makeFsentry_run (H := H) hplain path
      refine ⟨file, st', hrun, restored_of_decoded 0 hm rfl ?_⟩
      rw [withTypeBits_zero]
      exact (makeFsentry_decoded hrun).2
    · intro bits hbits hf
      obtain ⟨file, st', hrun⟩ := makeFsentry_run (H := H) hf path
      exact ⟨file, st', hrun, restored_of_decoded bits hm hbits (makeFsentry_decoded hrun).2⟩
  · intro s hf
    obtain ⟨file, st', hrun⟩ := makeFsentry_run (H := H) hf path
    exact ⟨file, st', hrun, (makeFsentry_decoded hrun).2.sinceEpoch⟩

def halfPast : SystemTime := ⟨1700000000, 500000000, by decide, by decide⟩

def accessedHalfPast : Metadata := { Metadata.ofSize 7 with accessed := some halfPast, mode := some (.ofU32 0o755) }

def statClient : St Ssh SftpFs Str := ⟨⟨some ⟨0⟩, some ⟨0⟩, ['/'], SshOpts.new "h".toList⟩, [], []⟩

/-- A record with the type bits of a regular file, and one with a time that is out of range. -/
theorem makeFsentry_filestat_half_second :
    (∃ file st', makeFsentry "/a.sh".toList ((metadataToFilestat accessedHalfPast).withTypeBits 0o100000)
        (shellServer fun _ => []) statClient = (.ok file, st') ∧
      file.metadata.mode = some (.ofU32 0o755) ∧ file.metadata.accessed = some halfPast.wholeSecs ∧
      file.metadata.modified = none) ∧
    ∃ file st', makeFsentry "/a.sh".toList ⟨none, none, none, none, none, some 18446744073709551615⟩
        (shellServer fun _ => []) statClient = (.ok file, st') ∧ file.metadata.SinceEpoch := by
  have htimes : accessedHalfPast.SinceEpoch := by
    rintro t (ht | ht)
    · cases ht
      decide
    · cases ht
  obtain ⟨hback, hread⟩ := makeFsentry_filestat (shellServer fun _ => []) statClient "/a.sh".toList
  obtain ⟨file, st', hrun, h⟩ := (hback accessedHalfPast htimes).2 0o100000 (by decide) fun _ => ⟨⟨0⟩, rfl⟩
  exact ⟨⟨file, st', hrun, h.mode, h.accessed, h.modified⟩,
    hread ⟨none, none, none, none, none, some 18446744073709551615⟩ fun _ => ⟨⟨0⟩, rfl⟩⟩

/-! ## A `setstat` and a `stat` behind it -/

/-- The record `s'` has the fields that `s` gives; there may be more bits above its permissions. -/
structure Retells (s s' : FileStat) : Prop where
  size : ∀ n, s.size = some n → s'.size = some n
  uid : ∀ u, s.uid = some u → s'.uid = some u
  gid : ∀ g, s.gid = some g → s'.gid = some g
  perm : ∀ p, s.perm = some p → ∃ bits, bits &&& 0o777 = 0 ∧ s'.perm = some (p ||| bits)
  atime : ∀ x, s.atime = some x → s'.atime = some x
  mtime : ∀ x, s.mtime = some x → s'.mtime = some x

/-- The attributes that `m` gives are those of `m'`. -/
structure Carried (m m' : Metadata) : Prop where
  uid : ∀ u, m.uid = some u → m'.uid = some u
  gid : ∀ g, m.gid = some g → m'.gid = some g
  mode : ∀ p, m.mode = some p → m'.mode = some p
  size : m'.size = m.size
  accessed : ∀ t, m.accessed = some t → m'.accessed = some t.wholeSecs
  modified : ∀ t, m.modified = some t → m'.modified = some t.wholeSecs

/-- A STAT request tells what the SETSTAT request before it has set. -/
def KeepsFields {σ : Type} (H : Handler Ssh σ) : Prop :=
  ∀ sftp q s s' env, (H.reply (.setstat sftp q s) env).1 = .ok () →
    (H.reply (.stat sftp q) (H.reply (.setstat sftp q s) env).2).1 = .ok s' → Retells s s'

theorem map_timeOfSecs_of_given {o : Option SystemTime} {x' : Option UInt64} {t : SystemTime}
    (h : ∀ x, o.bind SystemTime.secsSinceEpoch = some x → x' = some x) (ho : o = some t) (ht : 0 ≤ t.secs) :
    x'.map timeOfSecs = some t.wholeSecs := by
  subst ho
  obtain ⟨x, hx, htime⟩ := Option.map_eq_some_iff.1 (timeOfSecs_secsSinceEpoch ht)
  rw [h x hx, Option.map_some, htime]

theorem carried_of_retells {s : FileStat} (hm : m.SinceEpoch) (ht : Retells (metadataToFilestat m) s)
    (h : Decoded s m') : Carried m m' where
  uid u hu := h.uid.trans (ht.uid u hu)
  gid g hg := h.gid.trans (ht.gid g hg)
  mode p hp := by
    have hperm : (metadataToFilestat m).perm = some p.toU32 := by
      show m.mode.map UnixPex.toU32 = _
      rw [hp, Option.map_some]
    obtain ⟨bits, hbits, hs⟩ := ht.perm p.toU32 hperm
    rw [h.mode, hs, Option.map_some, UnixPex.ofU32_or hbits, UnixPex.ofU32_toU32]
  size := by rw [h.size, ht.size m.size rfl, Option.getD_some]
  accessed t hacc := h.accessed.trans (map_timeOfSecs_of_given ht.atime hacc (hm t (Or.inl hacc)))
  modified t hmod := h.modified.trans (map_timeOfSecs_of_given ht.mtime hmod (hm t (Or.inr hmod)))

/-- What a `setstat` gave a `stat` right behind it returns. -/
theorem stat_setstat {σ : Type} {H : Handler Ssh σ} (hH : KeepsFields H) {st st₁ st₂ : St Ssh SftpFs σ}
    {path : PathBuf} {file : File} (hm : m.SinceEpoch) (h₁ : setstat path m H st = (.ok (), st₁))
    (h₂ : stat path H st₁ = (.ok file, st₂)) : Carried m file.metadata := by
  obtain ⟨sftp, hs, h₁⟩ := withSftp_eq_ok h₁
  obtain ⟨hset, henv, -, hself⟩ := ask_ok (orKind_eq_ok h₁)
  obtain ⟨sftp', hs', h₂⟩ := withSftp_eq_ok h₂
  rw [hself, hs] at hs'
  cases hs'
  obtain ⟨s, st₃, h₃, h₂⟩ := bind_eq_ok h₂
  obtain ⟨hstat, -, -, -⟩ := ask_ok (orKind_eq_ok h₃)
  rw [hself, henv] at hstat
  exact carried_of_retells hm (hH _ _ _ _ _ hset hstat) (makeFsentry_decoded h₂).2

/-- A server that has one record, and keeps the last one it was given. -/
def recordServer : Handler Ssh FileStat where
  reply
    | .setstat _ _ s, _ => (.ok (), s)
    | .stat .., s => (.ok s, s)
    | c, s => (okReply c, s)

theorem recordServer_keeps : KeepsFields recordServer := by
  intro sftp q s s' env _ h
  cases h
  refine ⟨fun _ h => h, fun _ h => h, fun _ h => h, fun p hp => ⟨0, rfl, ?_⟩, fun _ h => h, fun _ h => h⟩
  rw [UInt32.or_zero]
  exact hp

end SftpFs

end RemotefsSsh
