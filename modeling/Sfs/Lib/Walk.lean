import Mathlib.Data.List.Infix

/-- Where the labels lead from `k`, if every step of the way is there. -/
def walk {κ ν : Type} (child : κ → ν → Option κ) (k : κ) : List ν → Option κ
  | [] => some k
  | x :: q => (child k x).bind fun k' => walk child k' q

namespace Walk

variable {κ ν : Type} {child child' : κ → ν → Option κ} {k m root : κ} {p q : List ν} {x : ν}

theorem append : walk child k (p ++ q) = (walk child k p).bind fun k' => walk child k' q := by
  induction p generalizing k with
  | nil => rfl
  | cons x p ih => simp only [List.cons_append, walk, ih, Option.bind_assoc]

theorem concat : walk child k (p ++ [x]) = (walk child k p).bind fun k' => child k' x := by
  rw [append]
  simp [walk]

theorem concat_some : walk child k (p ++ [x]) = some m ↔
    ∃ k', walk child k p = some k' ∧ child k' x = some m := by
  rw [concat, Option.bind_eq_some_iff]

/-- Only the steps made on the way matter. -/
theorem congr (same : ∀ pre y rest, q = pre ++ y :: rest → ∀ j, walk child k pre = some j →
    child' j y = child j y) : walk child' k q = walk child k q := by
  induction q generalizing k with
  | nil => rfl
  | cons x q ih =>
    rw [walk, walk, same [] x q rfl k rfl]
    cases step : child k x with
    | none => rfl
    | some k' =>
      simp only [Option.bind_some]
      refine ih fun pre y rest split j reach => same (x :: pre) y rest (by rw [split]; rfl) j ?_
      rw [walk, step]
      exact reach

/-- What holds at the start and is passed on to children holds at the end. -/
theorem invariant {I : κ → Prop} (start : I k) (step : ∀ j x j', I j → child j x = some j' → I j')
    (reach : walk child k q = some m) : I m := by
  induction q generalizing k with
  | nil => exact Option.some.inj reach ▸ start
  | cons x q ih =>
    obtain ⟨k', here, rest⟩ := Option.bind_eq_some_iff.mp reach
    exact ih (step k x k' start here) rest

/-- In a tree a node is reached in one way. `I` holds of the nodes of the tree. -/
theorem unique {I : κ → Prop} (start : I root) (step : ∀ j x j', I j → child j x = some j' → I j')
    (once : ∀ j x j' x' i, I j → I j' → child j x = some i → child j' x' = some i → j = j' ∧ x = x')
    (top : ∀ j x, I j → child j x ≠ some root) (first : walk child root p = some m)
    (second : walk child root q = some m) : p = q := by
  induction p using List.reverseRecOn generalizing q m with
  | nil =>
    have atRoot : root = m := Option.some.inj first
    subst atRoot
    rcases List.eq_nil_or_concat q with rfl | ⟨q, x, rfl⟩
    · rfl
    · rw [List.concat_eq_append] at second
      obtain ⟨j, reach, last⟩ := concat_some.mp second
      exact absurd last (top j x (invariant start step reach))
  | append_singleton p x ih =>
    obtain ⟨j, reach, last⟩ := concat_some.mp first
    have holds := invariant start step reach
    rcases List.eq_nil_or_concat q with rfl | ⟨q, x', rfl⟩
    · have atRoot : root = m := Option.some.inj second
      subst atRoot
      exact absurd last (top j x holds)
    · rw [List.concat_eq_append] at second ⊢
      obtain ⟨j', reach', last'⟩ := concat_some.mp second
      obtain ⟨rfl, rfl⟩ := once j x j' x' m holds (invariant start step reach') last last'
      rw [ih reach reach']

end Walk
