import Mathlib.Tactic.Common

/-- The state after the requests `ops`, each permitted where it was made. -/
inductive Run {σ ω : Type} (step : σ → ω → σ) (ok : σ → ω → Prop) (start : σ) : List ω → σ → Prop
  | nil : Run step ok start [] start
  | next {ops s op} : Run step ok start ops s → ok s op → Run step ok start (ops ++ [op]) (step s op)

namespace Run

variable {σ ω : Type} {step : σ → ω → σ} {ok ok' : σ → ω → Prop} {start s s' : σ} {ops more : List ω}

theorem invariant {I : σ → Prop} (base : I start) (preserve : ∀ s op, I s → ok s op → I (step s op))
    (run : Run step ok start ops s) : I s := by
  induction run with
  | nil => exact base
  | next _ permitted ih => exact preserve _ _ ih permitted

theorem mono (weaker : ∀ s op, ok s op → ok' s op) (run : Run step ok start ops s) :
    Run step ok' start ops s := by
  induction run with
  | nil => exact .nil
  | next _ permitted ih => exact .next ih (weaker _ _ permitted)

theorem append (run : Run step ok start ops s) (rest : Run step ok s more s') :
    Run step ok start (ops ++ more) s' := by
  induction rest with
  | nil => simpa using run
  | next _ permitted ih => rw [← List.append_assoc]; exact .next ih permitted

theorem foldl_eq (run : Run step ok start ops s) : ops.foldl step start = s := by
  induction run with
  | nil => rfl
  | next _ _ ih => rw [List.foldl_append, ih]; rfl

/-- What the requests `ops` cost together, from the state `s` on. -/
def spent (step : σ → ω → σ) (cost : σ → ω → Nat) (s : σ) : List ω → Nat
  | [] => 0
  | op :: ops => cost s op + spent step cost (step s op) ops

theorem spent_append {cost : σ → ω → Nat} :
    spent step cost s (ops ++ more) = spent step cost s ops + spent step cost (ops.foldl step s) more := by
  induction ops generalizing s with
  | nil => rw [List.nil_append, spent, Nat.zero_add]; rfl
  | cons op ops ih => rw [List.cons_append, spent, spent, ih, Nat.add_assoc]; rfl

/-- Where every step pays what it costs from `value`, the value at the start
is what is left and what has been spent. -/
theorem balance {I : σ → Prop} {value : σ → Nat} {cost : σ → ω → Nat} (base : I start)
    (pays : ∀ s op, I s → ok s op → I (step s op) ∧ value (step s op) + cost s op = value s)
    (run : Run step ok start ops s) : I s ∧ value s + spent step cost start ops = value start := by
  induction run with
  | nil => exact ⟨base, rfl⟩
  | @next ops s op before permitted ih =>
    obtain ⟨holds, paid⟩ := ih
    obtain ⟨holds', pay⟩ := pays s op holds permitted
    refine ⟨holds', ?_⟩
    rw [spent_append, before.foldl_eq, spent, spent]
    omega

end Run
