import RemotefsSsh.Lib.Hoare

/-!
# Monitors of a log

A monitor reads the calls of a program with their replies, one after another, and says before each whether it
is allowed there. `Accepts log`: every call in the log was.
-/

namespace Effect

structure Monitor (F : Iface) (μ : Type) where
  start : μ
  allows : μ → F.Call → Prop
  next : μ → Sigma F.Reply → μ

namespace Monitor

variable {F : Iface} {μ κ σ ε : Type} (M : Monitor F μ)

def after (log : List (Sigma F.Reply)) : μ := log.foldl M.next M.start

def Accepts (log : List (Sigma F.Reply)) : Prop := ∀ pre e, pre ++ [e] <+: log → M.allows (M.after pre) e.1

@[simp] theorem after_nil : M.after [] = M.start := rfl

@[simp] theorem after_snoc (log : List (Sigma F.Reply)) (e : Sigma F.Reply) :
    M.after (log ++ [e]) = M.next (M.after log) e := by
  rw [after, List.foldl_append]
  rfl

theorem accepts_nil : M.Accepts [] := by
  intro pre e h
  have := h.length_le
  simp at this

theorem accepts_snoc {log : List (Sigma F.Reply)} {e : Sigma F.Reply} :
    M.Accepts (log ++ [e]) ↔ M.Accepts log ∧ M.allows (M.after log) e.1 := by
  constructor
  · intro h
    exact ⟨fun pre e' hpre => h pre e' (hpre.trans (List.prefix_append _ _)), h log e (List.prefix_refl _)⟩
  · rintro ⟨hlog, he⟩ pre e' hpre
    rcases List.prefix_concat_iff.1 hpre with heq | hpre
    · obtain ⟨rfl, he'⟩ := List.append_inj' heq rfl
      cases he'
      exact he
    · exact hlog pre e' hpre

/-- A call that is allowed. -/
theorem accepts_asked {H : Handler F σ} {c : F.Call} {st : St F κ σ} (h : M.Accepts st.log)
    (hc : M.allows (M.after st.log) c) : M.Accepts (asked H c st).log := M.accepts_snoc.2 ⟨h, hc⟩

theorem after_asked {H : Handler F σ} {c : F.Call} {st : St F κ σ} :
    M.after (asked H c st).log = M.next (M.after st.log) ⟨c, (H.reply c st.env).1⟩ := M.after_snoc _ _

end Monitor

end Effect
