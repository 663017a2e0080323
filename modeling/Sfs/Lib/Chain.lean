import Mathlib.Data.List.Nodup

/-- The list `l` is threaded through `next` from `head`, and -1 ends it. -/
def Chain (next : Nat → Int) : Int → List Nat → Prop
  | head, [] => head = -1
  | head, b :: l => head = b ∧ Chain next (next b) l

namespace Chain

variable {next next' : Nat → Int} {head : Int} {b : Nat} {l l' : List Nat}

theorem congr (chain : Chain next head l) (same : ∀ b ∈ l, next' b = next b) :
    Chain next' head l := by
  induction l generalizing head with
  | nil => exact chain
  | cons b l ih =>
    refine ⟨chain.1, ?_⟩
    rw [same b (List.mem_cons_self ..)]
    exact ih chain.2 fun c member => same c (List.mem_cons_of_mem _ member)

/-- The links outside the list may change. -/
theorem update (chain : Chain next head l) (out : b ∉ l) (h : Int) :
    Chain (Function.update next b h) head l :=
  chain.congr fun _ member => Function.update_of_ne (by rintro rfl; exact out member) ..

theorem push (chain : Chain next head l) (out : b ∉ l) :
    Chain (Function.update next b head) b (b :: l) :=
  ⟨rfl, by rw [Function.update_self]; exact chain.update out head⟩

theorem unique (chain : Chain next head l) (chain' : Chain next head l') : l = l' := by
  induction l generalizing head l' with
  | nil =>
    cases l' with
    | nil => rfl
    | cons b l' => have := chain.symm.trans chain'.1; omega
  | cons b l ih =>
    cases l' with
    | nil => have := chain.1.symm.trans chain'; omega
    | cons b' l' =>
      have same : b = b' := by have := chain.1.symm.trans chain'.1; omega
      subst same
      rw [ih chain.2 chain'.2]

theorem head_eq (chain : Chain next head l) : head = -1 ∧ l = [] ∨ ∃ (b : Nat) (l' : List Nat), head = b ∧ l = b :: l' := by
  cases l with
  | nil => exact Or.inl ⟨chain, rfl⟩
  | cons b l => exact Or.inr ⟨b, l, chain.1, rfl⟩

/-- Consecutive numbers, each linked to the next. -/
theorem ofRange (next : Nat → Int) (first count : Nat) (links : ∀ b, first ≤ b → b + 1 < first + count → next b = b + 1)
    (last : 0 < count → next (first + count - 1) = -1) :
    Chain next (if count = 0 then -1 else first) (List.range' first count) := by
  induction count generalizing first with
  | zero => rfl
  | succ count ih =>
    rw [List.range'_succ, if_neg (by omega)]
    refine ⟨rfl, ?_⟩
    have rest := ih (first + 1) (fun b lower upper => links b (by omega) (by omega))
      (fun positive => by rw [← last (by omega)]; congr 1; omega)
    by_cases empty : count = 0
    · have atLast := last (by omega)
      have same : first + (count + 1) - 1 = first := by omega
      rw [same] at atLast
      rw [if_pos empty] at rest
      rw [atLast]
      exact rest
    · rw [if_neg empty] at rest
      rw [links first (Nat.le_refl _) (by omega)]
      exact_mod_cast rest

end Chain
