import Mathlib.Data.List.TakeDrop

/-! A list laid over another one from an index on. -/

namespace Splice

variable {α : Type*} {x y : List α} {n i : Nat}

/-- `x` with its elements from index `n` on replaced by those of `y`. -/
def splice (x y : List α) (n : Nat) : List α := x.take n ++ y ++ x.drop (n + y.length)

theorem length_splice (within : n ≤ x.length) : (splice x y n).length = max x.length (n + y.length) := by
  rw [splice, List.length_append, List.length_append, List.length_take, List.length_drop]
  omega

theorem getElem?_splice_inside (within : n ≤ x.length) (lower : n ≤ i) (upper : i < n + y.length) :
    (splice x y n)[i]? = y[i - n]? := by
  have first : (x.take n).length = n := List.length_take_of_le within
  rw [splice, List.append_assoc, List.getElem?_append_right (by omega), first,
    List.getElem?_append_left (by omega)]

theorem getElem?_splice_outside (within : n ≤ x.length) (outside : i < n ∨ n + y.length ≤ i) :
    (splice x y n)[i]? = x[i]? := by
  have first : (x.take n).length = n := List.length_take_of_le within
  rw [splice, List.append_assoc]
  rcases outside with before | past
  · rw [List.getElem?_append_left (by omega), List.getElem?_take_of_lt before]
  · rw [List.getElem?_append_right (by omega), List.getElem?_append_right (by omega), List.getElem?_drop, first]
    congr 1
    omega

end Splice
