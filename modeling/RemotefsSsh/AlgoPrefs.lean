import RemotefsSsh.Commons
import RemotefsSsh.Lib.Writes
import RemotefsSsh.Servers

/-!
# Algorithm preferences (ssh/commons.rs:138-197, ssh/mod.rs:89-101)

`set_algo_prefs` hands the configuration's lists to the session and then those of the options, so that the last list of
a type is the one that stays. It stops at the first list that the session refuses, also when another one of its type is
still to come: the preferences are the effective ones exactly when the session takes the lists that are overridden as
well (`setAlgoPrefs_effective_iff`).
-/

namespace RemotefsSsh

open Utf8 Effect Prog Writes

/-! ## The effective lists -/

/-- The configuration's list for a type; ciphers and MACs serve both directions. -/
def HostParams.algos (params : HostParams) : SshMethodType → Option (List Str)
  | .kex => params.kexAlgorithms
  | .hostKey => params.hostKeyAlgorithms
  | .cryptCs | .cryptSc => params.ciphers
  | .macCs | .macSc => params.mac

/-- The list of the last method of a type. -/
def SshOpts.algos (opts : SshOpts) (t : SshMethodType) : Option (List Str) :=
  (opts.methods.reverse.find? fun m => m.methodType.toSsh = t).map KeyMethod.algos

/-- The options come before the configuration. -/
def effective (opts : SshOpts) (params : HostParams) (t : SshMethodType) : Option (List Str) :=
  (opts.algos t).or (params.algos t)

/-- A list that another one of its type comes before. -/
inductive Overridden (opts : SshOpts) (params : HostParams) : SshMethodType → List Str → Prop
  | config {t : SshMethodType} {algos : List Str} {m : KeyMethod} : params.algos t = some algos → m ∈ opts.methods →
      m.methodType.toSsh = t → Overridden opts params t algos
  | method {pre post : List KeyMethod} {m m' : KeyMethod} : opts.methods = pre ++ m :: post → m' ∈ post →
      m'.methodType = m.methodType → Overridden opts params m.methodType.toSsh m.algos

/-- A session that supports some lists: it takes such a list as the preference of the type, and refuses any other
without effect. -/
structure TakesPrefs {σ : Type} (H : Handler Ssh σ) (session : SshSession) (supports : SshMethodType → Str → Bool)
    (prefs : σ → SshMethodType → Option Str) : Prop where
  supported : ∀ t algos env, supports t algos = true → (H.reply (.methodPref session t algos) env).1 = .ok () ∧
    prefs (H.reply (.methodPref session t algos) env).2 = Function.update (prefs env) t (some algos)
  refused : ∀ t algos env, supports t algos = false →
    (∃ err, (H.reply (.methodPref session t algos) env).1 = .error err) ∧
    prefs (H.reply (.methodPref session t algos) env).2 = prefs env
  compress : ∀ b env, prefs (H.reply (.setCompress session b) env).2 = prefs env

/-! ## The lists in the order in which they are set -/

def paramWrites (ts : List SshMethodType) : Option (List Str) → List (SshMethodType × Str)
  | none => []
  | some algos => ts.map fun t => (t, joinComma algos)

def configWrites (params : HostParams) : List (SshMethodType × Str) :=
  paramWrites [.kex] params.kexAlgorithms ++ (paramWrites [.hostKey] params.hostKeyAlgorithms ++
    (paramWrites [.cryptCs, .cryptSc] params.ciphers ++ paramWrites [.macCs, .macSc] params.mac))

def methodWrite (m : KeyMethod) : SshMethodType × Str := (m.methodType.toSsh, m.prefs)

theorem toSsh_injective {t t' : MethodType} (h : t.toSsh = t'.toSsh) : t = t' := by
  cases t <;> cases t' <;> first | rfl | cases h

theorem paramWrites_keys (ts : List SshMethodType) (algos : Option (List Str)) :
    ((paramWrites ts algos).map Prod.fst).Sublist ts := by
  cases algos with
  | none => exact List.nil_sublist ts
  | some algos =>
    have hkeys : (paramWrites ts (some algos)).map Prod.fst = ts := by simp [paramWrites, Function.comp_def]
    rw [hkeys]

/-- The configuration sets each type once. -/
theorem configWrites_nodup (params : HostParams) : ((configWrites params).map Prod.fst).Nodup := by
  have hsub : ((configWrites params).map Prod.fst).Sublist
      ([.kex] ++ ([.hostKey] ++ ([.cryptCs, .cryptSc] ++ [.macCs, .macSc]))) := by
    unfold configWrites
    simp only [List.map_append]
    exact (paramWrites_keys _ _).append
      ((paramWrites_keys _ _).append ((paramWrites_keys _ _).append (paramWrites_keys _ _)))
  exact hsub.nodup (by decide)

theorem latest_paramWrites (t : SshMethodType) (ts : List SshMethodType) (algos : Option (List Str)) :
    latest t (paramWrites ts algos) = if t ∈ ts then algos.map joinComma else none := by
  cases algos with
  | none => simp [paramWrites]
  | some algos =>
    show latest t (ts.map fun t => (t, joinComma algos)) = _
    induction ts with
    | nil => rfl
    | cons u ts ih =>
      rw [List.map_cons, latest_cons, ih]
      by_cases hmem : t ∈ ts
      · simp [hmem]
      · by_cases hu : u = t
        · simp [hmem, hu]
        · simp [hmem, hu, Ne.symm hu]

theorem latest_configWrites (params : HostParams) (t : SshMethodType) :
    latest t (configWrites params) = (params.algos t).map joinComma := by
  unfold configWrites
  simp only [latest_append, latest_paramWrites]
  cases t <;> simp [HostParams.algos]

theorem latest_methodWrites (ms : List KeyMethod) (t : SshMethodType) :
    latest t (ms.map methodWrite) =
      ((ms.reverse.find? fun m => m.methodType.toSsh = t).map KeyMethod.algos).map joinComma := by
  induction ms with
  | nil => rfl
  | cons m ms ih =>
    rw [List.map_cons, latest_cons, ih, List.reverse_cons, List.find?_append]
    cases hfind : ms.reverse.find? fun m => m.methodType.toSsh = t with
    | some m' => rfl
    | none =>
      by_cases ht : m.methodType.toSsh = t
      · simp [methodWrite, KeyMethod.prefs, ht]
      · simp [methodWrite, ht]

/-- The last list that is set for a type is the effective one. -/
theorem latest_prefs (opts : SshOpts) (params : HostParams) (t : SshMethodType) :
    latest t (configWrites params ++ opts.methods.map methodWrite) = (effective opts params t).map joinComma := by
  rw [latest_append, latest_configWrites, latest_methodWrites]
  show ((opts.algos t).map joinComma).or _ = ((opts.algos t).or (params.algos t)).map joinComma
  cases opts.algos t with
  | none => simp
  | some algos => simp

/-- A list that is set and replaced is one that is overridden. -/
theorem replaced_prefs_iff (opts : SshOpts) (params : HostParams) {w : SshMethodType × Str} :
    Replaced (configWrites params ++ opts.methods.map methodWrite) w ↔
      ∃ algos, Overridden opts params w.1 algos ∧ w.2 = joinComma algos := by
  obtain ⟨t, text⟩ := w
  have hconfig : (t, text) ∈ configWrites params ↔ ∃ algos, params.algos t = some algos ∧ joinComma algos = text := by
    rw [mem_iff_latest (configWrites_nodup params), latest_configWrites, Option.map_eq_some_iff]
  rw [replaced_append_iff, hconfig, replaced_map_iff]
  constructor
  · rintro (⟨⟨algos, halgos, rfl⟩, x, hx, ht⟩ | h | ⟨pre, m, post, hms, hm, m', hm', ht⟩)
    · obtain ⟨m, hm, rfl⟩ := List.mem_map.1 hx
      exact ⟨algos, .config halgos hm ht, rfl⟩
    · exact absurd h (not_replaced (configWrites_nodup params))
    · cases hm
      exact ⟨m.algos, .method hms hm' (toSsh_injective ht), rfl⟩
  · rintro ⟨algos, h, rfl⟩
    cases h with
    | @config _ _ m halgos hm ht => exact Or.inl ⟨⟨algos, halgos, rfl⟩, methodWrite m, List.mem_map.2 ⟨m, hm, rfl⟩, ht⟩
    | @method pre post m m' hms hm' ht =>
      exact Or.inr (Or.inr ⟨pre, m, post, hms, rfl, m', hm', congrArg MethodType.toSsh ht⟩)

/-! ## What is set -/

section
variable {κ σ : Type} {H : Handler Ssh σ} {session : SshSession} {supports : SshMethodType → Str → Bool}
  {prefs : σ → SshMethodType → Option Str} {ws ws' : List (SshMethodType × Str)}

/-- The program makes the writes, or it fails because one of them is refused. -/
structure Performs (H : Handler Ssh σ) (supports : SshMethodType → Str → Bool) (prefs : σ → SshMethodType → Option Str)
    (ws : List (SshMethodType × Str)) (m : Remote κ σ Unit) : Prop where
  done : (∀ w ∈ ws, supports w.1 w.2 = true) → ∀ st,
    ∃ st', m H st = (.ok (), st') ∧ prefs st'.env = stored ws (prefs st.env)
  failed : (¬ ∀ w ∈ ws, supports w.1 w.2 = true) → ∀ st, ∃ err st', m H st = (.err err, st')

namespace Performs

theorem skip {m : Remote κ σ Unit} (h : ∀ st, ∃ st', m H st = (.ok (), st') ∧ prefs st'.env = prefs st.env) :
    Performs H supports prefs [] m where
  done _ := h
  failed hno := absurd (fun _ hw => absurd hw List.not_mem_nil) hno

theorem append {m m' : Remote κ σ Unit} (h : Performs H supports prefs ws m) (h' : Performs H supports prefs ws' m') :
    Performs H supports prefs (ws ++ ws') (m >>= fun _ => m') := by
  refine ⟨fun hall st => ?_, fun hno st => ?_⟩
  · rw [List.forall_mem_append] at hall
    obtain ⟨st₁, hrun, hprefs⟩ := h.done hall.1 st
    obtain ⟨st₂, hrun', hprefs'⟩ := h'.done hall.2 st₁
    exact ⟨st₂, by rw [bind_ok hrun, hrun'], by rw [hprefs', hprefs, stored_append]⟩
  · by_cases hws : ∀ w ∈ ws, supports w.1 w.2 = true
    · obtain ⟨st₁, hrun, -⟩ := h.done hws st
      obtain ⟨err, st₂, hrun'⟩ := h'.failed (fun hws' => hno (List.forall_mem_append.2 ⟨hws, hws'⟩)) st₁
      exact ⟨err, st₂, by rw [bind_ok hrun, hrun']⟩
    · obtain ⟨err, st₁, hrun⟩ := h.failed hws st
      exact ⟨err, st₁, bind_err hrun⟩

end Performs

theorem methodPref_performs (hH : TakesPrefs H session supports prefs) (t : SshMethodType) (algos : Str) :
    Performs H supports prefs [(t, algos)] (methodPref session t algos : Remote κ σ Unit) := by
  refine ⟨fun hall st => ?_, fun hno st => ?_⟩
  · obtain ⟨hreply, hprefs⟩ := hH.supported t algos st.env (hall _ List.mem_cons_self)
    unfold methodPref
    rw [bind_ok (ask_run _ st), hreply]
    exact ⟨_, rfl, hprefs⟩
  · have hrefused : supports t algos = false := by
      by_contra hsup
      refine hno fun w hw => ?_
      rw [List.mem_singleton.1 hw]
      simpa using hsup
    obtain ⟨⟨err, hreply⟩, -⟩ := hH.refused t algos st.env hrefused
    unfold methodPref
    rw [bind_ok (ask_run _ st), hreply]
    exact ⟨_, _, rfl⟩

theorem setParam_performs (hH : TakesPrefs H session supports prefs) (ts : List SshMethodType)
    (algos : Option (List Str)) :
    Performs H supports prefs (paramWrites ts algos) (setParam session ts algos : Remote κ σ Unit) := by
  cases algos with
  | none => exact .skip fun st => ⟨st, rfl, rfl⟩
  | some algos =>
    show Performs H supports prefs (ts.map fun t => (t, joinComma algos))
      (ts.forM fun t => methodPref session t (joinComma algos))
    induction ts with
    | nil => exact .skip fun st => ⟨st, rfl, rfl⟩
    | cons t ts ih => exact (methodPref_performs hH t (joinComma algos)).append ih

theorem setMethods_performs (hH : TakesPrefs H session supports prefs) (ms : List KeyMethod) :
    Performs H supports prefs (ms.map methodWrite) (setMethods session ms : Remote κ σ Unit) := by
  induction ms with
  | nil => exact .skip fun st => ⟨st, rfl, rfl⟩
  | cons m ms ih => exact (methodPref_performs hH m.methodType.toSsh m.prefs).append ih

theorem setAlgoPrefs_performs (hH : TakesPrefs H session supports prefs) (opts : SshOpts) (config : Config) :
    Performs H supports prefs (configWrites config.params ++ opts.methods.map methodWrite)
      (setAlgoPrefs session opts config : Remote κ σ Unit) := by
  have hcompress : Performs H supports prefs []
      (ifSome config.params.compression fun compress => ask (.setCompress session compress) : Remote κ σ Unit) := by
    refine .skip fun st => ?_
    cases config.params.compression with
    | none => exact ⟨st, rfl, rfl⟩
    | some compress => exact ⟨_, rfl, hH.compress compress st.env⟩
  have hall := hcompress.append ((setParam_performs hH [.kex] config.params.kexAlgorithms).append
    ((setParam_performs hH [.hostKey] config.params.hostKeyAlgorithms).append
      ((setParam_performs hH [.cryptCs, .cryptSc] config.params.ciphers).append
        ((setParam_performs hH [.macCs, .macSc] config.params.mac).append (setMethods_performs hH opts.methods)))))
  have hws : configWrites config.params ++ opts.methods.map methodWrite =
      [] ++ (paramWrites [.kex] config.params.kexAlgorithms ++
        (paramWrites [.hostKey] config.params.hostKeyAlgorithms ++
          (paramWrites [.cryptCs, .cryptSc] config.params.ciphers ++
            (paramWrites [.macCs, .macSc] config.params.mac ++ opts.methods.map methodWrite)))) := by
    simp only [configWrites, List.append_assoc, List.nil_append]
  rw [hws]
  exact hall

/-- **When the session takes every effective list, `set_algo_prefs` succeeds and makes them the preferences exactly if
the session takes every overridden list as well.** -/
theorem setAlgoPrefs_effective_iff (hH : TakesPrefs H session supports prefs) (opts : SshOpts) (config : Config)
    (st : St Ssh κ σ) :
    ((∀ t algos, effective opts config.params t = some algos → supports t (joinComma algos) = true) →
      ∃ st', setAlgoPrefs session opts config H st = (.ok (), st') ∧
        ∀ t, prefs st'.env t = ((effective opts config.params t).map joinComma).or (prefs st.env t)) ↔
    (∃ t algos, effective opts config.params t = some algos ∧ supports t (joinComma algos) = false) ∨
      ∀ t algos, Overridden opts config.params t algos → supports t (joinComma algos) = true := by
  have hperforms := setAlgoPrefs_performs (κ := κ) hH opts config
  by_cases heff : ∀ t algos, effective opts config.params t = some algos → supports t (joinComma algos) = true
  · have hall : (∀ w ∈ configWrites config.params ++ opts.methods.map methodWrite, supports w.1 w.2 = true) ↔
        ∀ t algos, Overridden opts config.params t algos → supports t (joinComma algos) = true := by
      rw [forall_mem_iff]
      constructor
      · intro h t algos hover
        exact h.2 (t, joinComma algos) ((replaced_prefs_iff opts config.params).2 ⟨algos, hover, rfl⟩)
      · refine fun h => ⟨fun t text htext => ?_, fun w hw => ?_⟩
        · rw [latest_prefs, Option.map_eq_some_iff] at htext
          obtain ⟨algos, halgos, rfl⟩ := htext
          exact heff t algos halgos
        · obtain ⟨algos, hover, htext⟩ := (replaced_prefs_iff opts config.params).1 hw
          rw [htext]
          exact h _ algos hover
    have hnone : ¬ ∃ t algos, effective opts config.params t = some algos ∧ supports t (joinComma algos) = false := by
      rintro ⟨t, algos, halgos, hno⟩
      rw [heff t algos halgos] at hno
      cases hno
    rw [or_iff_right hnone, ← hall]
    constructor
    · intro h
      obtain ⟨st', hrun, -⟩ := h heff
      by_contra hno
      obtain ⟨err, st₁, hrun'⟩ := hperforms.failed hno st
      rw [hrun] at hrun'
      cases hrun'
    · intro hsup _
      obtain ⟨st', hrun, hprefs⟩ := hperforms.done hsup st
      refine ⟨st', hrun, fun t => ?_⟩
      rw [hprefs, stored_apply, latest_prefs]
  · refine iff_of_true (fun h => absurd h heff) (Or.inl ?_)
    simp only [not_forall] at heff
    obtain ⟨t, algos, halgos, hno⟩ := heff
    exact ⟨t, algos, halgos, by simpa using hno⟩

end

/-! ## A session that knows one algorithm or two of each type -/

namespace SampleSession

def known : SshMethodType → List Str
  | .kex => ["curve25519-sha256".toList]
  | .hostKey => ["ssh-ed25519".toList]
  | .cryptCs | .cryptSc => ["aes128-ctr".toList, "aes256-ctr".toList]
  | .macCs | .macSc => ["hmac-sha2-256".toList]

/-- A list with a known algorithm in it is taken. -/
def supports (t : SshMethodType) (algos : Str) : Bool := (algos.splitOn ',').any fun algo => (known t).elem algo

def server : Handler Ssh (SshMethodType → Option Str) where
  reply
    | .methodPref _ t algos, prefs =>
      if supports t algos then (.ok (), Function.update prefs t (some algos))
      else (.error ⟨.session (-33), "The requested method(s) are not currently supported".toList⟩, prefs)
    | c, prefs => (okReply c, prefs)

theorem server_takesPrefs : TakesPrefs server ⟨0⟩ supports id where
  supported t algos env h := by
    have hreply : server.reply (.methodPref ⟨0⟩ t algos) env = (.ok (), Function.update env t (some algos)) := if_pos h
    rw [hreply]
    exact ⟨rfl, rfl⟩
  refused t algos env h := by
    have hreply : server.reply (.methodPref ⟨0⟩ t algos) env =
        (.error ⟨.session (-33), "The requested method(s) are not currently supported".toList⟩, env) :=
      if_neg (by simp [h])
    rw [hreply]
    exact ⟨⟨_, rfl⟩, rfl⟩
  compress _ _ := rfl

def opts (methods : List KeyMethod) : SshOpts := { SshOpts.new "h".toList with methods := methods }

/-- The configuration has a list for the key exchange and one for the ciphers. -/
def config (cipher : Str) : Config :=
  .fromParams { HostParams.default with kexAlgorithms := some ["curve25519-sha256".toList], ciphers := some [cipher] }
    (opts [])

def start : St Ssh Unit (SshMethodType → Option Str) := ⟨(), fun _ => none, []⟩

/-- Two methods of one type. -/
def twoCiphers : SshOpts :=
  opts [⟨.cryptClientServer, ["aes128-ctr".toList]⟩, ⟨.cryptClientServer, ["aes256-ctr".toList]⟩]

/-- A cipher for both directions. -/
def ownCiphers : SshOpts :=
  opts [⟨.cryptClientServer, ["aes128-ctr".toList]⟩, ⟨.cryptServerClient, ["aes128-ctr".toList]⟩]

end SampleSession

open SampleSession in
/-- The cipher of one direction is overridden twice, that of the other is the configuration's. -/
theorem setAlgoPrefs_effective_ciphers :
    ∃ st', setAlgoPrefs ⟨0⟩ twoCiphers (config "aes128-ctr".toList) server start = (.ok (), st') ∧
      st'.env .kex = some "curve25519-sha256".toList ∧ st'.env .hostKey = none ∧
      st'.env .cryptCs = some "aes256-ctr".toList ∧ st'.env .cryptSc = some "aes128-ctr".toList := by
  have hover : ∀ t algos, Overridden twoCiphers (config "aes128-ctr".toList).params t algos →
      supports t (joinComma algos) = true := by
    intro t algos h
    cases h with
    | config halgos hm ht => cases t <;> cases halgos <;> decide
    | @method pre post m m' hms hm' ht =>
      have hmem : m ∈ twoCiphers.methods := by simp [hms]
      simp only [twoCiphers, opts, List.mem_cons, List.not_mem_nil, or_false] at hmem
      rcases hmem with rfl | rfl
      · decide
      · decide
  have heff : ∀ t algos, effective twoCiphers (config "aes128-ctr".toList).params t = some algos →
      supports t (joinComma algos) = true := by
    intro t algos h
    cases t <;> cases h <;> decide
  obtain ⟨st', hrun, hprefs⟩ := (setAlgoPrefs_effective_iff server_takesPrefs _ _ start).2 (Or.inr hover) heff
  exact ⟨st', hrun, hprefs .kex, hprefs .hostKey, hprefs .cryptCs, hprefs .cryptSc⟩

open SampleSession in
/-- The options have a known cipher for both directions, and that of the configuration is refused before it. -/
theorem setAlgoPrefs_overridden_refused :
    ¬ ((∀ t algos, effective ownCiphers (config "nope-ctr".toList).params t = some algos →
        supports t (joinComma algos) = true) →
      ∃ st', setAlgoPrefs ⟨0⟩ ownCiphers (config "nope-ctr".toList) server start = (.ok (), st') ∧
        ∀ t, st'.env t = (effective ownCiphers (config "nope-ctr".toList).params t).map joinComma) := by
  intro h
  have heff : ∀ t algos, effective ownCiphers (config "nope-ctr".toList).params t = some algos →
      supports t (joinComma algos) = true := by
    intro t algos h
    cases t <;> cases h <;> decide
  obtain ⟨st', hrun, -⟩ := h heff
  have hfail : (setAlgoPrefs ⟨0⟩ ownCiphers (config "nope-ctr".toList) server start).1 =
      .err (.newEx .protocolError "The requested method(s) are not currently supported".toList) := rfl
  rw [hrun] at hfail
  cases hfail

end RemotefsSsh
