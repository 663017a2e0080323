import Mathlib.Data.List.Induction
import Mathlib.Logic.Function.Basic

/-- A number is taken out of a set of free numbers, or put back. -/
inductive Handout
  | popped (k : Nat)
  | pushed (k : Nat)

namespace Handout

def apply (free : Nat → Bool) : Handout → Nat → Bool
  | popped k => Function.update free k false
  | pushed k => Function.update free k true

/-- The free numbers after the events `es`. -/
def after (free : Nat → Bool) (es : List Handout) : Nat → Bool := es.foldl apply free

/-- Below `bound` the least free number is `k`, or none is free and `k` is 0. -/
def LeastFree (bound : Nat) (free : Nat → Bool) (k : Nat) : Prop :=
  (k < bound ∧ free k = true ∧ ∀ j < k, free j = false) ∨ k = 0 ∧ ∀ j < bound, free j = false

variable {free : Nat → Bool} {es pre mid post : List Handout} {e : Handout} {bound j k : Nat}

theorem apply_congr {free' : Nat → Bool} (same : free' j = free j) : apply free' e j = apply free e j := by
  cases e with
  | popped k | pushed k => by_cases here : j = k <;> simp [apply, here, same, Function.update_of_ne]

theorem after_concat : after free (es ++ [e]) = apply (after free es) e := by rw [after, List.foldl_append]; rfl

theorem after_append : after free (pre ++ es) = after (after free pre) es := List.foldl_append ..

/-- A number that becomes free has been put back. -/
theorem pushed_of_after (free₀ : free k = false) (now : after free es k = true) : pushed k ∈ es := by
  induction es using List.reverseRecOn with
  | nil =>
    rw [after, List.foldl_nil, free₀] at now
    exact absurd now Bool.false_ne_true
  | append_singleton es e ih =>
    rw [after_concat] at now
    cases e with
    | popped j =>
      by_cases same : k = j
      · rw [apply, same, Function.update_self] at now
        exact absurd now Bool.false_ne_true
      · rw [apply, Function.update_of_ne same] at now
        exact List.mem_append_left _ (ih now)
    | pushed j =>
      by_cases same : k = j
      · rw [same]
        exact List.mem_append_right _ (List.mem_singleton_self _)
      · rw [apply, Function.update_of_ne same] at now
        exact List.mem_append_left _ (ih now)

/-- Where every pop takes a free number, none is taken twice without being put back. -/
theorem pushed_between (taken : ∀ pre k post, es = pre ++ popped k :: post → LeastFree bound (after free pre) k)
    (positive : k ≠ 0) (split : es = pre ++ popped k :: (mid ++ popped k :: post)) : pushed k ∈ mid := by
  have second := taken (pre ++ popped k :: mid) k post (by rw [split]; simp)
  obtain ⟨_, now, _⟩ := second.resolve_right fun none => positive none.1
  have gone : after free (pre ++ [popped k]) k = false := by
    rw [after_concat, apply, Function.update_self]
  rw [List.append_cons, after_append] at now
  exact pushed_of_after gone now

end Handout
