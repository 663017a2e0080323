import Mathlib.Tactic.Common

/-- A table of numbered rows, each with a key and a value. Rows at or past
`rows` do not belong to it. -/
structure Table (κ ν : Type) where
  rows : Nat
  key : Nat → κ
  val : Nat → ν

namespace Table

variable {κ ν : Type}

/-- No two rows have the same key. -/
def Distinct (t : Table κ ν) : Prop := ∀ i < t.rows, ∀ j < t.rows, t.key i = t.key j → i = j

/-- Row `i` of `t` and of `t'` agree, for every row they have. -/
def Agree (t t' : Table κ ν) : Prop :=
  t'.rows = t.rows ∧ ∀ i < t.rows, t'.key i = t.key i ∧ t'.val i = t.val i

/-- `t'` has one more row. -/
def Pushed (t t' : Table κ ν) (x : κ) (v : ν) : Prop :=
  t'.rows = t.rows + 1 ∧ (∀ i < t.rows, t'.key i = t.key i ∧ t'.val i = t.val i) ∧
    t'.key t.rows = x ∧ t'.val t.rows = v

/-- The last row of `t` has taken the place of row `r`. -/
def Dropped (t t' : Table κ ν) (r : Nat) : Prop :=
  t'.rows = t.rows - 1 ∧ ∀ i < t.rows - 1,
    t'.key i = t.key (if i = r then t.rows - 1 else i) ∧ t'.val i = t.val (if i = r then t.rows - 1 else i)

variable {t t' : Table κ ν} {x y : κ} {v : ν} {i n r : Nat}

theorem Agree.distinct (agree : Agree t t') (distinct : t.Distinct) : t'.Distinct := by
  intro i hi j hj same
  rw [agree.1] at hi hj
  rw [(agree.2 i hi).1, (agree.2 j hj).1] at same
  exact distinct i hi j hj same

theorem Agree.pushed {t'' : Table κ ν} (agree : Agree t t') (pushed : Pushed t' t'' x v) : Pushed t t'' x v := by
  obtain ⟨rows, old, key, val⟩ := pushed
  rw [agree.1] at rows old key val
  refine ⟨rows, fun i hi => ?_, key, val⟩
  rw [(old i hi).1, (old i hi).2]
  exact agree.2 i hi

theorem Agree.dropped {t'' : Table κ ν} (agree : Agree t t') (dropped : Dropped t' t'' r) : Dropped t t'' r := by
  obtain ⟨rows, old⟩ := dropped
  rw [agree.1] at rows old
  refine ⟨rows, fun i hi => ?_⟩
  rw [(old i hi).1, (old i hi).2]
  exact agree.2 _ (by split <;> omega)

theorem Pushed.agree {t'' : Table κ ν} (pushed : Pushed t t' x v) (agree : Agree t' t'') : Pushed t t'' x v := by
  obtain ⟨rows, old, key, val⟩ := pushed
  refine ⟨agree.1.trans rows, fun i hi => ?_, ?_, ?_⟩
  · rw [(agree.2 i (by omega)).1, (agree.2 i (by omega)).2]
    exact old i hi
  · rw [(agree.2 _ (by omega)).1, key]
  · rw [(agree.2 _ (by omega)).2, val]

theorem Dropped.agree {t'' : Table κ ν} (dropped : Dropped t t' r) (agree : Agree t' t'') : Dropped t t'' r := by
  obtain ⟨rows, old⟩ := dropped
  refine ⟨agree.1.trans rows, fun i hi => ?_⟩
  rw [(agree.2 i (by omega)).1, (agree.2 i (by omega)).2]
  exact old i hi

theorem Dropped.distinct (dropped : Dropped t t' r) (distinct : t.Distinct) : t'.Distinct := by
  obtain ⟨rows, old⟩ := dropped
  intro i hi j hj same
  rw [(old i (by omega)).1, (old j (by omega)).1] at same
  have equal := distinct _ (by split <;> omega) _ (by split <;> omega) same
  split at equal <;> split at equal <;> omega

/-- A row that was pushed is dropped again. -/
theorem Pushed.dropped {t'' : Table κ ν} (pushed : Pushed t t' x v) (dropped : Dropped t' t'' t.rows) : Agree t t'' := by
  obtain ⟨rows, old, _⟩ := pushed
  obtain ⟨rows', old'⟩ := dropped
  refine ⟨by omega, fun i hi => ?_⟩
  have back := old' i (by omega)
  rw [if_neg (by omega)] at back
  rw [back.1, back.2]
  exact old i hi

variable [DecidableEq κ]

/-- The first of `n` rows from row `i` on that has key `x`. -/
def findFrom (t : Table κ ν) (x : κ) (i : Nat) : Nat → Option ν
  | 0 => none
  | n + 1 => if t.key i = x then some (t.val i) else findFrom t x (i + 1) n

def find (t : Table κ ν) (x : κ) : Option ν := t.findFrom x 0 t.rows

theorem findFrom_none : t.findFrom x i n = none ↔ ∀ j, i ≤ j → j < i + n → t.key j ≠ x := by
  induction n generalizing i with
  | zero => exact ⟨fun _ j _ _ => by omega, fun _ => rfl⟩
  | succ n ih =>
    rw [findFrom]
    split
    next hit =>
      refine ⟨fun h => ?_, fun h => absurd hit (h i (Nat.le_refl i) (by omega))⟩
      exact absurd h (Option.some_ne_none _)
    next miss =>
      rw [ih]
      refine ⟨fun h j lower upper => ?_, fun h j lower upper => h j (by omega) (by omega)⟩
      by_cases here : j = i
      · exact here ▸ miss
      · exact h j (by omega) (by omega)

theorem findFrom_some (found : t.findFrom x i n = some v) :
    ∃ j, i ≤ j ∧ j < i + n ∧ t.key j = x ∧ t.val j = v := by
  induction n generalizing i with
  | zero => exact nomatch found
  | succ n ih =>
    rw [findFrom] at found
    split at found
    next hit => exact ⟨i, Nat.le_refl i, by omega, hit, Option.some.inj found⟩
    next miss =>
      obtain ⟨j, lower, upper, h⟩ := ih found
      exact ⟨j, by omega, by omega, h⟩

theorem find_none : t.find x = none ↔ ∀ j < t.rows, t.key j ≠ x := by
  rw [find, findFrom_none, Nat.zero_add]
  exact ⟨fun h j upper => h j (Nat.zero_le j) upper, fun h j _ upper => h j upper⟩

theorem find_some (distinct : t.Distinct) :
    t.find x = some v ↔ ∃ j < t.rows, t.key j = x ∧ t.val j = v := by
  constructor
  · intro found
    obtain ⟨j, _, upper, h⟩ := findFrom_some found
    exact ⟨j, by omega, h⟩
  · rintro ⟨j, within, hit, value⟩
    cases found : t.find x with
    | none => exact absurd hit (find_none.mp found j within)
    | some w =>
      obtain ⟨i, _, upper, hit', value'⟩ := findFrom_some found
      have same := distinct i (by omega) j within (hit'.trans hit.symm)
      rw [← value', same, value]

theorem findFrom_congr (same : ∀ j, i ≤ j → j < i + n → t'.key j = t.key j ∧ t'.val j = t.val j) :
    t'.findFrom x i n = t.findFrom x i n := by
  induction n generalizing i with
  | zero => rfl
  | succ n ih =>
    obtain ⟨key, val⟩ := same i (Nat.le_refl i) (by omega)
    rw [findFrom, findFrom, key, val, ih fun j lower upper => same j (by omega) (by omega)]

theorem Agree.find_eq (agree : Agree t t') : t'.find x = t.find x := by
  rw [find, find, agree.1]
  exact findFrom_congr fun j _ upper => agree.2 j (by omega)

theorem Pushed.distinct (pushed : Pushed t t' x v) (distinct : t.Distinct) (fresh : t.find x = none) :
    t'.Distinct := by
  obtain ⟨rows, old, key, _⟩ := pushed
  intro i hi j hj same
  rw [find_none] at fresh
  by_cases iNew : i = t.rows
  · by_cases jNew : j = t.rows
    · rw [iNew, jNew]
    · rw [iNew, key, (old j (by omega)).1] at same
      exact absurd same.symm (fresh j (by omega))
  · by_cases jNew : j = t.rows
    · rw [jNew, key, (old i (by omega)).1] at same
      exact absurd same (fresh i (by omega))
    · rw [(old i (by omega)).1, (old j (by omega)).1] at same
      exact distinct i (by omega) j (by omega) same

/-- A push changes the value at one key. -/
theorem Pushed.find_eq (pushed : Pushed t t' x v) (distinct : t.Distinct) (fresh : t.find x = none) :
    t'.find y = if y = x then some v else t.find y := by
  have distinct' := pushed.distinct distinct fresh
  obtain ⟨rows, old, key, val⟩ := pushed
  split
  next same => exact (find_some distinct').mpr ⟨t.rows, by omega, by rw [key, same], val⟩
  next ne =>
    ext w
    rw [find_some distinct', find_some distinct]
    constructor
    · rintro ⟨j, hj, hit, value⟩
      have inside : j ≠ t.rows := by
        rintro rfl
        exact ne (hit.symm.trans key)
      rw [(old j (by omega)).1] at hit
      rw [(old j (by omega)).2] at value
      exact ⟨j, by omega, hit, value⟩
    · rintro ⟨j, hj, hit, value⟩
      exact ⟨j, by omega, by rw [(old j hj).1, hit], by rw [(old j hj).2, value]⟩

/-- The last row may be dropped into any row, also into itself. -/
theorem Dropped.find_eq (dropped : Dropped t t' r) (distinct : t.Distinct) (within : r < t.rows) :
    t'.find y = if y = t.key r then none else t.find y := by
  have distinct' := dropped.distinct distinct
  obtain ⟨rows, old⟩ := dropped
  split
  next same =>
    rw [find_none]
    intro j hj hit
    rw [(old j (by omega)).1, same] at hit
    have equal := distinct _ (by split <;> omega) r within hit
    split at equal <;> omega
  next ne =>
    ext w
    rw [find_some distinct', find_some distinct]
    constructor
    · rintro ⟨j, hj, hit, value⟩
      rw [(old j (by omega)).1] at hit
      rw [(old j (by omega)).2] at value
      exact ⟨_, by split <;> omega, hit, value⟩
    · rintro ⟨j, hj, hit, value⟩
      have other : j ≠ r := by
        rintro rfl
        exact ne hit.symm
      by_cases last : j = t.rows - 1
      · refine ⟨r, by omega, ?_⟩
        rw [(old r (by omega)).1, (old r (by omega)).2, if_pos rfl, ← last]
        exact ⟨hit, value⟩
      · refine ⟨j, by omega, ?_⟩
        rw [(old j (by omega)).1, (old j (by omega)).2, if_neg other]
        exact ⟨hit, value⟩

end Table
