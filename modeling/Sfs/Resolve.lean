import Mathlib.Order.Interval.Finset.Nat
import Sfs.Request

namespace Sfs

variable {L L' : Set Nat} {s s₁ s' : State} {p : Pool Bytes} {fl fl' : List Nat} {k m n q r i : Nat} {x : Bytes}
  {c key : List UInt8} {cs : Path} {path : CPath}

namespace DirOk

variable (ok : DirOk p k)

include ok

/-- Past the first two rows stand the entries that are followed. -/
theorem child_row (two : 2 ≤ i) (within : i < size (p.cell k)) : child p k (entName p k i) = some (entInum p k i) := by
  have row : ∀ j < size (p.cell k), entName p k i = entName p k j → i = j := fun j hj same =>
    ok.distinct i within j hj same
  have many := ok.two
  rw [child_dir ok.dir, Table.find_some ok.distinct]
  · exact ⟨i, within, rfl, rfl⟩
  · intro dot
    have := row 0 (by omega) (dot.trans ok.dot.symm)
    omega
  · intro dotdot
    have := row 1 (by omega) (dotdot.trans ok.dotdot.symm)
    omega

/-- An entry that is followed stands in a row past the first two. -/
theorem row_of_child (step : child p k c = some m) :
    ∃ i < size (p.cell k), 2 ≤ i ∧ entName p k i = c ∧ entInum p k i = m := by
  obtain ⟨_, notDot, notDotdot, found⟩ := child_some step
  obtain ⟨i, within, name, value⟩ := (Table.find_some ok.distinct).mp found
  replace name : entName p k i = c := name
  refine ⟨i, within, ?_, name, value⟩
  by_contra low
  rcases (by omega : i = 0 ∨ i = 1) with rfl | rfl
  · exact notDot (name.symm.trans ok.dot)
  · exact notDotdot (name.symm.trans ok.dotdot)

end DirOk

/-- The entries of a directory lead to different inodes, of which there are few. -/
theorem Tree.rows_le (tree : Tree L p) (owned : Owned L p) (live : k ∈ L) (ok : DirOk p k) :
    size (p.cell k) ≤ 1024 := by
  have into : ∀ i ∈ Finset.Ico 2 (size (p.cell k)), entInum p k i ∈ Finset.Ico 2 1024 := fun i member => by
    obtain ⟨two, within⟩ := Finset.mem_Ico.mp member
    obtain ⟨live', _⟩ := tree.closed k live _ _ (ok.child_row two within)
    exact Finset.mem_Ico.mpr (owned.node_range live')
  have inj : Set.InjOn (entInum p k) (Finset.Ico 2 (size (p.cell k))) := fun i hi j hj same => by
    obtain ⟨two, within⟩ := Finset.mem_Ico.mp hi
    obtain ⟨two', within'⟩ := Finset.mem_Ico.mp hj
    have first := ok.child_row two within
    have second := ok.child_row two' within'
    rw [← same] at second
    exact ok.distinct i within j within' (tree.once k live k live _ _ _ first second).2
  have count := Finset.card_le_card_of_injOn _ into inj
  rw [Nat.card_Ico, Nat.card_Ico] at count
  have := ok.two
  omega

/-- The lookup of a path is a step from its last directory. -/
theorem Proper.resolve (proper : Proper s path (cs ++ [c])) (good : Good s L fl) :
    ∃ m, walk (child s.stores.pool) 2 cs = some m ∧ m ∈ L ∧ DirOk s.stores.pool m ∧
      ∀ s₀, Glance s s₀ → ∃ s', pathToInum s₀ path = (⟨toInum (child s.stores.pool m c), m⟩, s') ∧
        Glance s s' := by
  have plain : ∀ x ∈ cs, Plain x := fun x member => proper.plain x (List.mem_append_left _ member)
  have above : namei s cs = toInum (walk (child s.stores.pool) 2 cs) :=
    namei_eq good.owned good.tree plain fun pre x rest split =>
      proper.parents pre x (rest ++ [c]) (by rw [split]; simp)
  obtain ⟨positive, dir⟩ := proper.parents cs c [] rfl
  rw [above] at positive dir
  cases walks : walk (child s.stores.pool) 2 cs with
  | none =>
    rw [walks, toInum] at positive
    omega
  | some m =>
    obtain ⟨live, ok⟩ := good.tree.reach walks
    rw [walks, toInum, good.owned.inodeLoad_eq live] at dir
    refine ⟨m, rfl, live, ok dir, fun s₀ glance₀ => ?_⟩
    have same := glance₀.stores_eq
    obtain ⟨s', run, glance, _⟩ := pathToInum_spec (s := s₀) cs (by rw [same]; exact good.owned)
      (by rw [same]; exact good.tree) plain (proper.plain c (by simp)) (by rw [same]; exact walks)
      (by rw [same]; exact dir)
    rw [same] at run
    exact ⟨s', by rw [proper.eq, run], glance₀.trans glance⟩

theorem Proper.namei_eq (proper : Proper s path cs) (good : Good s L fl) :
    namei s cs = toInum (walk (child s.stores.pool) 2 cs) :=
  Sfs.namei_eq good.owned good.tree proper.plain proper.parents

theorem not_dirAt (good : Good s L fl) (proper : Proper s path cs) (notDir : ¬ DirAt s cs)
    (walks : walk (child s.stores.pool) 2 cs = some k) : isdir (s.stores.pool.cell k) = 0 := by
  by_contra dir
  obtain ⟨live, _⟩ := good.tree.reach walks
  have range := good.owned.node_range live
  refine notDir ⟨?_, ?_⟩ <;> rw [proper.namei_eq good, walks, toInum]
  · omega
  · rwa [good.owned.inodeLoad_eq live]

theorem not_fileAt (good : Good s L fl) (proper : Proper s path cs) (notFile : ¬ FileAt s cs)
    (walks : walk (child s.stores.pool) 2 cs = some k) : isdir (s.stores.pool.cell k) ≠ 0 := by
  intro file
  obtain ⟨live, _⟩ := good.tree.reach walks
  have range := good.owned.node_range live
  refine notFile ⟨?_, ?_⟩ <;> rw [proper.namei_eq good, walks, toInum]
  · omega
  · rwa [good.owned.inodeLoad_eq live]

/-! The state before a request may be the one before or after its lookup. -/

theorem Made.of_glance (glance : Glance s s₁) (made : Made L s₁ s' q m x key) : Made L s s' q m x key := by
  obtain ⟨free, upper, ino, small, repaged, pushed, rest, traced, synced⟩ := made
  rw [glance.stores_eq] at free repaged pushed rest
  exact ⟨free, upper, ino, small, repaged, pushed, rest, glance.traced.trans traced, fun h => synced (glance.synced h)⟩

theorem Removal.of_glance (glance : Glance s s₁) (removal : Removal L L' s₁ s' k m r fl') :
    Removal L L' s s' k m r fl' := by
  obtain ⟨sub, rest, same, node, dir, dropped, owned, list, blocks, count, synced, errno, traced, data⟩ := removal
  rw [glance.stores_eq] at same dir dropped data
  exact ⟨sub, rest, same, node, dir, dropped, owned, list, blocks, count, synced, errno,
    glance.traced.trans traced, data⟩

theorem FileStep.of_glance (glance : Glance s s₁) (step : FileStep L s₁ s' k n fl fl') :
    FileStep L s s' k n fl fl' := by
  obtain ⟨repaged, moved, list, data, count, synced, traced⟩ := step
  rw [glance.stores_eq] at repaged moved data count
  exact ⟨repaged, moved, list, data, count, fun h => synced (glance.synced h), glance.traced.trans traced⟩

end Sfs
