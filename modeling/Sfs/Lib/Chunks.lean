import Mathlib.Data.List.TakeDrop

/-! Lists put together from pieces of one length. -/

namespace Chunks

variable {α β : Type*} {g : α → List β} {w : Nat} {l : List α} {i n : Nat}

theorem length_flatMap (even : ∀ a, (g a).length = w) : (l.flatMap g).length = w * l.length := by
  induction l with
  | nil => simp
  | cons a l ih => rw [List.flatMap_cons, List.length_append, even, ih, List.length_cons, Nat.mul_succ, Nat.add_comm]

theorem flatMap_take (even : ∀ a, (g a).length = w) : (l.take n).flatMap g = (l.flatMap g).take (w * n) := by
  induction l generalizing n with
  | nil => simp
  | cons a l ih =>
    cases n with
    | zero => simp
    | succ n =>
      have past : w * (n + 1) - (g a).length = w * n := by
        rw [even, Nat.mul_succ]
        omega
      have within : (g a).length ≤ w * (n + 1) := by
        rw [even, Nat.mul_succ]
        omega
      rw [List.take_succ_cons, List.flatMap_cons, List.flatMap_cons, List.take_append, past, ih,
        List.take_of_length_le within]

/-- Element `i` is in piece `i / w`. -/
theorem getElem?_flatMap (even : ∀ a, (g a).length = w) (positive : 0 < w) :
    (l.flatMap g)[i]? = l[i / w]?.bind fun a => (g a)[i % w]? := by
  induction l generalizing i with
  | nil => simp
  | cons a l ih =>
    rw [List.flatMap_cons, List.getElem?_append, even]
    by_cases here : i < w
    · rw [if_pos here, Nat.div_eq_of_lt here, Nat.mod_eq_of_lt here]
      rfl
    · have before : w ≤ i := by omega
      rw [if_neg here, ih, Nat.div_eq_sub_div positive before, Nat.mod_eq_sub_mod before, List.getElem?_cons_succ]

end Chunks
