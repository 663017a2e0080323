import Sfs.Lib.Walk

/-- What a name stands for. -/
structure Named (κ : Type) where
  id : κ
  dir : Bool

/-- The paths that lead to something. Only directories have names below them. -/
@[ext]
structure Namespace (κ ν : Type) where
  entry : List ν → Option (Named κ)
  above : ∀ q x, entry (q ++ [x]) ≠ none → ∃ n, entry q = some n ∧ n.dir = true

namespace Namespace

variable {κ ν : Type} [DecidableEq ν] {N : Namespace κ ν} {q pa : List ν} {x : ν} {n : Named κ}

def IsDir (N : Namespace κ ν) (q : List ν) : Prop := ∃ n, N.entry q = some n ∧ n.dir = true

/-- A new name in directory `q`. -/
def add (N : Namespace κ ν) (q : List ν) (x : ν) (n : Named κ) (dir : N.IsDir q) (free : N.entry (q ++ [x]) = none) :
    Namespace κ ν where
  entry pa := if pa = q ++ [x] then some n else N.entry pa
  above pa y there := by
    have kept : ∀ pb, N.IsDir pb → ∃ n', (if pb = q ++ [x] then some n else N.entry pb) = some n' ∧ n'.dir = true := by
      rintro pb ⟨n', found, isDir⟩
      refine ⟨n', ?_, isDir⟩
      rw [if_neg]
      · exact found
      · rintro rfl
        exact Option.some_ne_none n' (found.symm.trans free)
    by_cases new : pa ++ [y] = q ++ [x]
    · obtain ⟨rfl, -⟩ := List.append_inj' new rfl
      exact kept pa dir
    · rw [if_neg new] at there
      exact kept pa (N.above pa y there)

/-- The name at `p` is gone, with all that was below it. -/
def remove (N : Namespace κ ν) (p : List ν) : Namespace κ ν where
  entry pa := if p <+: pa then none else N.entry pa
  above pa y there := by
    by_cases below : p <+: pa ++ [y]
    · exact absurd (if_pos below) there
    · rw [if_neg below] at there
      rw [if_neg fun under => below (under.trans (List.prefix_append pa [y]))]
      exact N.above pa y there

variable {dir : N.IsDir q} {free : N.entry (q ++ [x]) = none}

theorem add_self : (N.add q x n dir free).entry (q ++ [x]) = some n := if_pos rfl

theorem add_other (ne : pa ≠ q ++ [x]) : (N.add q x n dir free).entry pa = N.entry pa := if_neg ne

theorem remove_below {p : List ν} (below : p <+: pa) : (N.remove p).entry pa = none := if_pos below

theorem remove_other {p : List ν} (apart : ¬ p <+: pa) : (N.remove p).entry pa = N.entry pa := if_neg apart

omit [DecidableEq ν] in
/-- Nothing is below a name that stands for nothing. -/
theorem absent_below {p : List ν} (absent : N.entry p = none) (below : p <+: pa) : N.entry pa = none := by
  obtain ⟨rest, rfl⟩ := below
  induction rest using List.reverseRecOn with
  | nil => rwa [List.append_nil]
  | append_singleton rest y ih =>
    by_contra there
    rw [← List.append_assoc] at there
    obtain ⟨n, found, _⟩ := N.above _ _ there
    exact Option.some_ne_none n (found.symm.trans ih)

omit [DecidableEq ν] in
/-- What is above a name is there. -/
theorem above_there {p : List ν} (there : N.entry pa ≠ none) (above : p <+: pa) : N.entry p ≠ none :=
  fun absent => there (absent_below absent above)

end Namespace

/-- What is asked of a namespace. -/
inductive NameRequest (ν : Type)
  | make (p : List ν) (dir : Bool)
  | drop (p : List ν)

def NameRequest.path {ν : Type} : NameRequest ν → List ν
  | .make p _ | .drop p => p

inductive NameAnswer
  | done
  | present
  | absent

namespace Namespace

variable {κ ν : Type} [DecidableEq ν] {N N' : Namespace κ ν} {p pa q : List ν} {d : Bool} {answer : NameAnswer}

/-- The answer to a request and the namespace after it. A new name stands for something new. -/
inductive Step (N : Namespace κ ν) : NameRequest ν → NameAnswer → Namespace κ ν → Prop
  | present {p : List ν} {d : Bool} : N.entry p ≠ none → Step N (.make p d) .present N
  | made {q : List ν} {x : ν} {i : κ} {d : Bool} (dir : N.IsDir q) (free : N.entry (q ++ [x]) = none) :
    (∀ pa n, N.entry pa = some n → n.id ≠ i) → Step N (.make (q ++ [x]) d) .done (N.add q x ⟨i, d⟩ dir free)
  | absent {p : List ν} : N.entry p = none → Step N (.drop p) .absent N
  | dropped {p : List ν} : N.entry p ≠ none → Step N (.drop p) .done (N.remove p)

theorem Step.made_entry (step : Step N (.make p d) .done N') : ∃ i, N'.entry p = some ⟨i, d⟩ := by
  cases step with
  | made => exact ⟨_, add_self⟩

theorem Step.dropped_entry (step : Step N (.drop p) .done N') : N'.entry p = none := by
  cases step with
  | dropped => exact remove_below (List.prefix_refl p)

theorem Step.answer_present (step : Step N (.make p d) answer N') (there : N.entry p ≠ none) : answer = .present := by
  cases step with
  | present => rfl
  | made _ free => exact absurd free there

theorem Step.make_present (step : Step N (.make p d) answer N') (there : N.entry p ≠ none) : N' = N := by
  cases step with
  | present => rfl
  | made _ free => exact absurd free there

/-- Only the path that is asked for and what is below it lead elsewhere. -/
theorem Step.entry_eq {request : NameRequest ν} (step : Step N request answer N')
    (apart : ¬ request.path <+: pa) : N'.entry pa = N.entry pa := by
  cases step with
  | present => rfl
  | made =>
    refine add_other ?_
    rintro rfl
    exact apart (List.prefix_refl _)
  | absent => rfl
  | dropped => exact remove_other apart

end Namespace
