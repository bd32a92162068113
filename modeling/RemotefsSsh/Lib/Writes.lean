import Mathlib.Data.List.Basic
import Mathlib.Logic.Function.Basic

/-!
# Writes to a store with keys

A list of writes is performed from the left. Afterwards a key has the value of the last write to it
(`stored_apply`). A write that a later one to the same key replaces leaves no trace, but it has been performed: all
writes of a list are of a kind exactly when the last ones are and the replaced ones are (`forall_mem_iff`).
-/

namespace Writes

variable {κ ν : Type} [DecidableEq κ]

/-- The value of the last write to a key. -/
def latest (k : κ) : List (κ × ν) → Option ν
  | [] => none
  | w :: ws => (latest k ws).or (if w.1 = k then some w.2 else none)

/-- The store after the writes. -/
def stored : List (κ × ν) → (κ → Option ν) → κ → Option ν
  | [], s => s
  | w :: ws, s => stored ws (Function.update s w.1 (some w.2))

/-- A later write is to the same key. -/
def Replaced (ws : List (κ × ν)) (w : κ × ν) : Prop := ∃ pre post, ws = pre ++ w :: post ∧ ∃ x ∈ post, x.1 = w.1

section
variable {k : κ} {v : ν} {w : κ × ν} {ws ws' : List (κ × ν)}

@[simp] theorem latest_nil : latest k ([] : List (κ × ν)) = none := rfl

theorem latest_cons : latest k (w :: ws) = (latest k ws).or (if w.1 = k then some w.2 else none) := rfl

theorem latest_append : latest k (ws ++ ws') = (latest k ws').or (latest k ws) := by
  induction ws with
  | nil => simp
  | cons w ws ih => rw [List.cons_append, latest_cons, latest_cons, ih, Option.or_assoc]

theorem latest_isSome_iff : (latest k ws).isSome = true ↔ ∃ x ∈ ws, x.1 = k := by
  induction ws with
  | nil => simp
  | cons w ws ih =>
    rw [latest_cons, Option.isSome_or, Bool.or_eq_true, ih]
    by_cases hk : w.1 = k
    · simp [hk]
    · simp [hk]

theorem latest_eq_none_iff : latest k ws = none ↔ ∀ x ∈ ws, x.1 ≠ k := by
  rw [← Option.not_isSome_iff_eq_none, latest_isSome_iff]
  simp only [not_exists, not_and, ne_eq]

/-- The last write to a key is the one without another behind it. -/
theorem latest_eq_some_iff : latest k ws = some v ↔ ∃ pre post, ws = pre ++ (k, v) :: post ∧ ∀ x ∈ post, x.1 ≠ k := by
  induction ws with
  | nil => simp
  | cons w ws ih =>
    rw [latest_cons]
    constructor
    · intro h
      rcases Option.or_eq_some_iff.1 h with h | ⟨hnone, h⟩
      · obtain ⟨pre, post, rfl, hpost⟩ := ih.1 h
        exact ⟨w :: pre, post, rfl, hpost⟩
      · split at h
        · rename_i hk
          cases h
          subst hk
          exact ⟨[], ws, rfl, latest_eq_none_iff.1 hnone⟩
        · cases h
    · rintro ⟨pre, post, hws, hpost⟩
      cases pre with
      | nil =>
        cases hws
        rw [latest_eq_none_iff.2 hpost, if_pos rfl]
        rfl
      | cons x pre =>
        cases hws
        rw [ih.2 ⟨pre, post, rfl, hpost⟩]
        rfl

/-- **A key has the value of the last write to it.** -/
theorem stored_apply (s : κ → Option ν) : stored ws s k = (latest k ws).or (s k) := by
  induction ws generalizing s with
  | nil => rfl
  | cons w ws ih =>
    show stored ws (Function.update s w.1 (some w.2)) k = _
    rw [ih, latest_cons, Option.or_assoc]
    by_cases hk : w.1 = k
    · subst hk
      rw [Function.update_self, if_pos rfl]
      rfl
    · rw [Function.update_of_ne (Ne.symm hk), if_neg hk]
      rfl

theorem stored_append (s : κ → Option ν) : stored (ws ++ ws') s = stored ws' (stored ws s) := by
  funext k
  rw [stored_apply, stored_apply, stored_apply, latest_append, Option.or_assoc]

/-- **The last writes and the replaced ones are all there are.** -/
theorem forall_mem_iff {P : κ × ν → Prop} :
    (∀ w ∈ ws, P w) ↔ (∀ k v, latest k ws = some v → P (k, v)) ∧ ∀ w, Replaced ws w → P w := by
  constructor
  · refine fun h => ⟨fun k v hkv => ?_, fun w hw => ?_⟩
    · obtain ⟨pre, post, rfl, -⟩ := latest_eq_some_iff.1 hkv
      exact h _ (by simp)
    · obtain ⟨pre, post, rfl, -⟩ := hw
      exact h _ (by simp)
  · rintro ⟨hlatest, hreplaced⟩ w hw
    obtain ⟨pre, post, rfl⟩ := List.append_of_mem hw
    by_cases hpost : ∃ x ∈ post, x.1 = w.1
    · exact hreplaced w ⟨pre, post, rfl, hpost⟩
    · refine hlatest w.1 w.2 (latest_eq_some_iff.2 ⟨pre, post, rfl, fun x hx hk => hpost ⟨x, hx, hk⟩⟩)

omit [DecidableEq κ] in
/-- A write of the first part is replaced by one of the second part or within the first. -/
theorem replaced_append_iff : Replaced (ws ++ ws') w ↔
    (w ∈ ws ∧ ∃ x ∈ ws', x.1 = w.1) ∨ Replaced ws w ∨ Replaced ws' w := by
  constructor
  · rintro ⟨pre, post, h, x, hx, hk⟩
    rcases List.append_eq_append_iff.1 h with ⟨as, rfl, rfl⟩ | ⟨bs, rfl, hbs⟩
    · exact Or.inr (Or.inr ⟨as, post, rfl, x, hx, hk⟩)
    · cases bs with
      | nil => exact Or.inr (Or.inr ⟨[], post, hbs.symm, x, hx, hk⟩)
      | cons b bs =>
        cases hbs
        rcases List.mem_append.1 hx with hx | hx
        · exact Or.inr (Or.inl ⟨pre, bs, rfl, x, hx, hk⟩)
        · exact Or.inl ⟨by simp, x, hx, hk⟩
  · rintro (⟨hw, x, hx, hk⟩ | ⟨pre, post, rfl, x, hx, hk⟩ | ⟨pre, post, rfl, x, hx, hk⟩)
    · obtain ⟨pre, post, rfl⟩ := List.append_of_mem hw
      exact ⟨pre, post ++ ws', by simp, x, List.mem_append_right _ hx, hk⟩
    · exact ⟨pre, post ++ ws', by simp, x, List.mem_append_left _ hx, hk⟩
    · exact ⟨ws ++ pre, post, by simp, x, hx, hk⟩

/-- A key that is written once has the value written to it. -/
theorem mem_iff_latest (hn : (ws.map Prod.fst).Nodup) : (k, v) ∈ ws ↔ latest k ws = some v := by
  rw [latest_eq_some_iff]
  constructor
  · intro h
    obtain ⟨pre, post, rfl⟩ := List.append_of_mem h
    refine ⟨pre, post, rfl, fun x hx hk => ?_⟩
    rw [List.map_append, List.map_cons, List.nodup_append] at hn
    exact (List.nodup_cons.1 hn.2.1).1 (List.mem_map.2 ⟨x, hx, hk⟩)
  · rintro ⟨pre, post, rfl, -⟩
    simp

omit [DecidableEq κ] in
theorem not_replaced (hn : (ws.map Prod.fst).Nodup) : ¬ Replaced ws w := by
  rintro ⟨pre, post, rfl, x, hx, hk⟩
  rw [List.map_append, List.map_cons, List.nodup_append] at hn
  exact (List.nodup_cons.1 hn.2.1).1 (List.mem_map.2 ⟨x, hx, hk⟩)

omit [DecidableEq κ] in
theorem replaced_map_iff {α : Type} {f : α → κ × ν} {as : List α} :
    Replaced (as.map f) w ↔ ∃ pre a post, as = pre ++ a :: post ∧ f a = w ∧ ∃ x ∈ post, (f x).1 = w.1 := by
  constructor
  · rintro ⟨pre, post, h, x, hx, hk⟩
    obtain ⟨pre', rest, rfl, rfl, hrest⟩ := List.map_eq_append_iff.1 h
    obtain ⟨a, post', rfl, rfl, rfl⟩ := List.map_eq_cons_iff.1 hrest
    obtain ⟨y, hy, rfl⟩ := List.mem_map.1 hx
    exact ⟨pre', a, post', rfl, rfl, y, hy, hk⟩
  · rintro ⟨pre, a, post, rfl, rfl, x, hx, hk⟩
    exact ⟨pre.map f, post.map f, by simp, f x, List.mem_map.2 ⟨x, hx, rfl⟩, hk⟩

end

end Writes
