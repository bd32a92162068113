import Mathlib.Data.List.Basic

/-!
# Trying one thing after another

A plan is gone through until something answers. What was tried comes with the answer, none where there was none.
-/

namespace Tries

variable {α β : Type} {plan : List α} {b : β} {ts : List (α × Option β)}

/-- Nothing on the plan answered. -/
def failed (plan : List α) : List (α × Option β) := plan.map fun a => (a, none)

/-- Everything before the last failed, and the last answered with `b`. -/
def Hit (plan : List α) (b : β) (ts : List (α × Option β)) : Prop :=
  ∃ before a after, plan = before ++ a :: after ∧ ts = failed before ++ [(a, some b)]

@[simp] theorem failed_nil : failed ([] : List α) = ([] : List (α × Option β)) := rfl

theorem failed_append (plan rest : List α) : (failed (plan ++ rest) : List (α × Option β)) =
    failed plan ++ failed rest :=
  List.map_append

theorem hit_head (a : α) (rest : List α) (b : β) : Hit (a :: rest) b [(a, some b)] := ⟨[], a, rest, rfl, rfl⟩

/-- What is left of the plan does not matter. -/
theorem Hit.append (h : Hit plan b ts) (rest : List α) : Hit (plan ++ rest) b ts := by
  obtain ⟨before, a, after, rfl, rfl⟩ := h
  exact ⟨before, a, after ++ rest, by simp, rfl⟩

theorem Hit.after (h : Hit plan b ts) (done : List α) : Hit (done ++ plan) b (failed done ++ ts) := by
  obtain ⟨before, a, after, rfl, rfl⟩ := h
  exact ⟨done ++ before, a, after, by simp, by rw [failed_append, List.append_assoc]⟩

/-- What came of the plan: nothing, or an answer. -/
def Through (plan : List α) : Option β → List (α × Option β) → Prop
  | none, ts => ts = failed plan
  | some b, ts => Hit plan b ts

theorem through_nil : Through ([] : List α) (none : Option β) [] := rfl

theorem Through.head {a : α} {o : Option β} {ts : List (α × Option β)} (h : Through plan o ts) :
    Through (a :: plan) o ((a, none) :: ts) := by
  cases o with
  | none => exact congrArg _ h
  | some b => exact Hit.after h [a]

/-- Where one plan failed the next is gone through. -/
theorem Through.then {rest : List α} {o : Option β} {us : List (α × Option β)} (h : Through plan none ts)
    (h' : Through rest o us) : Through (plan ++ rest) o (ts ++ us) := by
  obtain rfl : ts = failed plan := h
  cases o with
  | none => exact (congrArg _ h').trans (failed_append plan rest).symm
  | some b => exact Hit.after h' plan

end Tries
