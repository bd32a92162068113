import RemotefsSsh.Tree

/-!
# `exists` and `stat` over SCP (ssh/scp.rs:336-377)

`exists` asks `test -e`, which follows links; `stat` reads a line of `ls`, which does not, and which
needs a parent directory to put the name in. So the two agree on what is an ordinary object with a
readable line, and differ on the root, on special files and on links that lead nowhere.
-/

namespace RemotefsSsh

open Utf8 UnixPath Effect Prog

/-- Where `exists` and `stat` agree, by what the path is and what it leads to. `reply` is what `ls` prints. -/
def AgreesAt (K : Classes) (t : Tree) (q : PathBuf) (reply : Str) : Prop :=
  match t.lstat q, t.stat q with
  | none, _ => True
  | some (.special ..), _ => False
  | some (.row ..), some _ => (parent q).isSome = true ∧ Readable K (trim reply)
  -- a link that leads nowhere
  | some (.row ..), none => ¬ ((parent q).isSome = true ∧ Readable K (trim reply))

namespace ScpFs

section
variable {σ ω : Type} {M : Sh.Machine ω} {world : σ → ω} {tree : ω → Tree} {H : Handler Ssh σ} {L : Libs}
  {st : St Ssh ScpFs σ} {path : PathBuf}

theorem exists_true_iff (hH : Serves M world H) (hM : ShowsTree M tree) {session : SshSession}
    (hs : st.self.session = some session) (hplain : Sh.Plain (absolutize st.self.wrkdir path)) :
    (∃ st', existsPath path H st = (.ok true, st')) ↔
      ((tree (world st.env)).stat (absolutize st.self.wrkdir path)).isSome = true := by
  have hcalls := hM.calls_existsPath hplain
  obtain ⟨b, st₁, h₁⟩ := existsPath_serves hH hcalls hs
  obtain ⟨-, hb, -⟩ := existsPath_hosts hH.toHosts hcalls h₁
  rw [hM.existsPath] at hb
  rw [h₁]
  cases hstat : ((tree (world st.env)).stat (absolutize st.self.wrkdir path)).isSome with
  | true =>
    rw [hstat] at hb
    subst hb
    exact ⟨fun _ => rfl, fun _ => ⟨st₁, rfl⟩⟩
  | false =>
    rw [hstat] at hb
    subst hb
    constructor
    · rintro ⟨st', h⟩
      cases h
    · intro h
      cases h

theorem agreesAt_of_absent {t : Tree} {q : PathBuf} (h : t.lstat q = none) (K : Classes) (reply : Str) :
    AgreesAt K t q reply := by
  unfold AgreesAt
  rw [h]
  trivial

/-- Nothing can be read of an empty answer. -/
theorem not_readable_nil {K : Classes} : ¬ Readable K [] := by
  rintro ⟨c, -, h, -⟩
  cases h

/-- **On a server that answers, `exists` says yes exactly when `stat` succeeds, if and only if the path names
nothing, or an ordinary object below the root with a readable line, or a link to nowhere without one.** -/
theorem exists_stat_agree_iff (hH : Serves M world H) (hM : ShowsTree M tree) {session : SshSession}
    (hs : st.self.session = some session) (habs : isAbsolute (absolutize st.self.wrkdir path) = true)
    (hplain : Sh.Plain (absolutize st.self.wrkdir path)) :
    ((∃ st', existsPath path H st = (.ok true, st')) ↔ ∃ f st', stat L path H st = (.ok f, st')) ↔
      AgreesAt L.classes (tree (world st.env)) (absolutize st.self.wrkdir path)
        (lsReply M tree (world st.env) (absolutize st.self.wrkdir path)) := by
  rw [exists_true_iff hH hM hs hplain, stat_ok_iff hH hM hs habs hplain]
  generalize absolutize st.self.wrkdir path = q
  generalize hw : world st.env = w
  cases hlstat : (tree w).lstat q with
  | none =>
    have hreply : lsReply M tree w q = [] := hM.absent w q hlstat
    have hstat := (tree w).stat_absent q hlstat
    rw [hstat, hreply]
    refine iff_of_true ?_ (agreesAt_of_absent hlstat _ _)
    constructor
    · intro h
      cases h
    · rintro ⟨-, h⟩
      exact absurd h not_readable_nil
  | some o =>
    unfold AgreesAt
    rw [hlstat]
    cases o with
    | row kind size =>
      cases hstat : (tree w).stat q with
      | none => simp
      | some o' => simp
    | special letter other =>
      have hstat := (tree w).stat_self q _ hlstat rfl
      have hreply : ¬ Readable L.classes (trim (lsReply M tree w q)) := by
        rintro ⟨c, hc, htext, -⟩
        exact hM.no_cut_special hlstat hc htext
      rw [hstat]
      simp [hreply]

end

/-! ## A file, and a link that leads nowhere -/

def sampleServer : Handler Ssh (Unit × Str) :=
  site sampleMachine (fun _ _ => .error ⟨.sftp 2, []⟩) fun w _ _ => w

def sampleClient : St Ssh ScpFs (Unit × Str) := ⟨⟨some ⟨0⟩, ['/'], SshOpts.new "h".toList⟩, ((), []), []⟩

theorem exists_stat_agree_file :
    (∃ st', existsPath "/srv/a".toList sampleServer sampleClient = (.ok true, st')) ↔
      ∃ f st', stat sampleLibs "/srv/a".toList sampleServer sampleClient = (.ok f, st') := by
  have hread : Readable Classes.ascii (trim (lsReply sampleMachine (fun _ => sampleTree) () "/srv/a".toList)) :=
    Columns.readable_of_no_digit (k := { plainRow.toColumns with size := 1 }) rfl rfl (c := .regular)
      ⟨by decide, by decide⟩ ⟨by intro c hc; cases hc; decide, by intro c hc; cases hc; decide⟩
      (by decide) (by decide)
  exact (exists_stat_agree_iff (site_serves sampleMachine _ _) sampleMachine_shows rfl rfl (by decide)).2
    ⟨by decide, hread⟩

/-- `exists` says no of the link, and `stat` succeeds. -/
theorem exists_stat_differ_dangling :
    ¬ ((∃ st', existsPath "/srv/l".toList sampleServer sampleClient = (.ok true, st')) ↔
      ∃ f st', stat sampleLibs "/srv/l".toList sampleServer sampleClient = (.ok f, st')) := by
  have hread : Readable Classes.ascii (trim (lsReply sampleMachine (fun _ => sampleTree) () "/srv/l".toList)) :=
    Columns.readable_of_no_digit (k := { plainRow.toColumns with size := 4 }) rfl rfl (c := .symlink "gone".toList)
      ⟨by decide, by decide⟩ ⟨by intro c hc; cases hc; decide, by intro c hc; cases hc; decide⟩
      (by decide) (by decide)
  have hserves : Serves sampleMachine Prod.fst sampleServer := site_serves sampleMachine _ _
  have hexists := @exists_true_iff _ _ _ _ _ _ sampleClient "/srv/l".toList hserves
    sampleMachine_shows ⟨0⟩ rfl (by decide)
  have hstat := @stat_ok_iff _ _ _ _ _ _ sampleLibs sampleClient "/srv/l".toList hserves sampleMachine_shows ⟨0⟩ rfl rfl
    (by decide)
  intro h
  have hyes := hexists.1 (h.2 (hstat.2 ⟨by decide, hread⟩))
  revert hyes
  decide

end ScpFs

end RemotefsSsh
