import Sfs.Lookup

namespace Sfs

/-- Where entry `c` of directory `k` leads. The two special entries are not followed. -/
def child (p : Pool Bytes) (k : Nat) (c : List UInt8) : Option Nat :=
  if isdir (p.cell k) ≠ 0 ∧ c ≠ [46] ∧ c ≠ [46, 46] then (dirTable p k).find c else none

/-- The nodes `L` and the entries between them. A directory that has been
removed is left without entries. -/
structure Tree (L : Set Nat) (p : Pool Bytes) : Prop where
  root : 2 ∈ L
  top : DirOk p 2
  dirs : ∀ k ∈ L, isdir (p.cell k) ≠ 0 → DirOk p k ∨ size (p.cell k) = 0
  closed : ∀ k ∈ L, ∀ c m, child p k c = some m → m ∈ L ∧ m ≠ 2 ∧ (isdir (p.cell m) ≠ 0 → DirOk p m)
  once : ∀ k ∈ L, ∀ k' ∈ L, ∀ c c' m, child p k c = some m → child p k' c' = some m → k = k' ∧ c = c'

variable {L L' : Set Nat} {p p' : Pool Bytes} {k m n q : Nat} {c : List UInt8} {cs qs : Path}

theorem child_file (file : isdir (p.cell k) = 0) : child p k c = none :=
  if_neg fun both => both.1 file

theorem child_dir (dir : isdir (p.cell k) ≠ 0) (notDot : c ≠ [46]) (notDotdot : c ≠ [46, 46]) :
    child p k c = (dirTable p k).find c := if_pos ⟨dir, notDot, notDotdot⟩

theorem child_empty (empty : size (p.cell k) = 0) : child p k c = none := by
  rw [child]
  split
  · rw [Table.find_none]
    intro j within
    simp only [dirTable, empty] at within
    omega
  · rfl

theorem child_some (found : child p k c = some m) :
    isdir (p.cell k) ≠ 0 ∧ c ≠ [46] ∧ c ≠ [46, 46] ∧ (dirTable p k).find c = some m := by
  rw [child] at found
  split at found
  next followed => exact ⟨followed.1, followed.2.1, followed.2.2, found⟩
  next => exact absurd found.symm (Option.some_ne_none m)

theorem Same.child_eq (same : Same p p' k) (fits : endOf (p.cell k) ≤ 33376)
    (ok : isdir (p.cell k) ≠ 0 → DirOk p k ∨ size (p.cell k) = 0) : child p' k c = child p k c := by
  rw [child, child, same.cell_eq]
  by_cases dir : isdir (p.cell k) = 0
  · rw [if_neg fun both => both.1 dir, if_neg fun both => both.1 dir]
  · rcases ok dir with good | empty
    · rw [(same.agree dir fits).find_eq]
    · have rows : size (p'.cell k) = 0 := by rw [same.cell_eq, empty]
      have none : ∀ {r : Pool Bytes}, size (r.cell k) = 0 → (dirTable r k).find c = Option.none := fun empty =>
        Table.find_none.mpr fun j hj => by
          simp only [dirTable, empty] at hj
          omega
      rw [none rows, none empty]

namespace Tree

/-- No entry has been added. -/
theorem shrink (tree : Tree L p) (root : 2 ∈ L') (top : DirOk p' 2)
    (dirs : ∀ k ∈ L', isdir (p'.cell k) ≠ 0 → DirOk p' k ∨ size (p'.cell k) = 0)
    (old : ∀ k ∈ L', ∀ c m, child p' k c = some m →
      k ∈ L ∧ child p k c = some m ∧ m ∈ L' ∧ (isdir (p'.cell m) ≠ 0 → DirOk p' m)) : Tree L' p' where
  root := root
  top := top
  dirs := dirs
  closed k hk c m step := by
    obtain ⟨live, was, live', good⟩ := old k hk c m step
    exact ⟨live', (tree.closed k live c m was).2.1, good⟩
  once k hk k' hk' c c' m step step' := by
    obtain ⟨live, was, _⟩ := old k hk c m step
    obtain ⟨live', was', _⟩ := old k' hk' c' m step'
    exact tree.once k live k' live' c c' m was was'

/-- One entry has been added, for a new node. -/
theorem grow (tree : Tree L p) (new : n ∉ L) (notRoot : n ≠ 2) (top : DirOk p' 2)
    (dirs : ∀ k ∈ insert n L, isdir (p'.cell k) ≠ 0 → DirOk p' k ∨ size (p'.cell k) = 0)
    (good : isdir (p'.cell n) ≠ 0 → DirOk p' n)
    (old : ∀ k ∈ insert n L, ∀ x m, child p' k x = some m →
      (k ∈ L ∧ child p k x = some m ∧ (isdir (p'.cell m) ≠ 0 → DirOk p' m)) ∨ (k = q ∧ x = c ∧ m = n)) :
    Tree (insert n L) p' where
  root := Set.mem_insert_of_mem _ tree.root
  top := top
  dirs := dirs
  closed k hk x m step := by
    rcases old k hk x m step with ⟨live, was, ok⟩ | ⟨_, _, rfl⟩
    · obtain ⟨live', ne, _⟩ := tree.closed k live x m was
      exact ⟨Set.mem_insert_of_mem _ live', ne, ok⟩
    · exact ⟨Set.mem_insert _ _, notRoot, good⟩
  once k hk k' hk' x x' m step step' := by
    rcases old k hk x m step with ⟨live, was, _⟩ | ⟨rfl, rfl, rfl⟩
    · have inL := (tree.closed k live x m was).1
      rcases old k' hk' x' m step' with ⟨live', was', _⟩ | ⟨_, _, rfl⟩
      · exact tree.once k live k' live' x x' m was was'
      · exact absurd inL new
    · rcases old k' hk' x' m step' with ⟨live', was', _⟩ | ⟨rfl, rfl, _⟩
      · exact absurd (tree.closed k' live' x' m was').1 new
      · exact ⟨rfl, rfl⟩

variable (tree : Tree L p)

include tree

theorem reach (walks : walk (child p) 2 qs = some k) : k ∈ L ∧ (isdir (p.cell k) ≠ 0 → DirOk p k) := by
  refine Walk.invariant (I := fun k => k ∈ L ∧ (isdir (p.cell k) ≠ 0 → DirOk p k)) ⟨tree.root, fun _ => tree.top⟩
    (fun j x j' holds step => ?_) walks
  obtain ⟨live, _, good⟩ := tree.closed j holds.1 x j' step
  exact ⟨live, good⟩

theorem unique (first : walk (child p) 2 cs = some k) (second : walk (child p) 2 qs = some k) : cs = qs :=
  Walk.unique (I := (· ∈ L)) tree.root (fun j x j' live step => (tree.closed j live x j' step).1)
    (fun j x j' x' i live live' => tree.once j live j' live' x x' i)
    (fun j x live step => (tree.closed j live x 2 step).2.1 rfl) first second

end Tree

end Sfs
