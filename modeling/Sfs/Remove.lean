import Sfs.Append

namespace Sfs

/-- A directory as `dnode_init` and the operations leave it: it starts with
its two special entries, and its names are distinct and fit into an entry. -/
structure DirOk (p : Pool Bytes) (k : Nat) : Prop where
  dir : isdir (p.cell k) ≠ 0
  two : 2 ≤ size (p.cell k)
  dot : entName p k 0 = [46]
  dotdot : entName p k 1 = [46, 46]
  distinct : (dirTable p k).Distinct
  named : ∀ i < size (p.cell k), entName p k i ≠ [] ∧ (entName p k i).length ≤ 13

variable {L : Set Nat} {s s' : State} {p p' : Pool Bytes} {k n a b i r : Nat} {tail : Bytes}
  {name : List UInt8} {d filename : Bytes}

namespace DirOk

variable (ok : DirOk p k)

include ok

theorem of_agree (agree : Table.Agree (dirTable p k) (dirTable p' k)) (dir : isdir (p'.cell k) = isdir (p.cell k)) :
    DirOk p' k := by
  have rows : size (p'.cell k) = size (p.cell k) := agree.1
  have row : ∀ i < size (p.cell k), entName p' k i = entName p k i := fun i hi => (agree.2 i hi).1
  have two := ok.two
  refine ⟨?_, ?_, ?_, ?_, agree.distinct ok.distinct, fun i hi => ?_⟩
  · rw [dir]
    exact ok.dir
  · rw [rows]
    exact two
  · rw [row 0 (by omega), ok.dot]
  · rw [row 1 (by omega), ok.dotdot]
  · rw [rows] at hi
    rw [row i hi]
    exact ok.named i hi

theorem congr (same : Same p p' k) (fits : endOf (p.cell k) ≤ 33376) : DirOk p' k :=
  ok.of_agree (same.agree ok.dir fits) (by rw [same.cell_eq])

/-- An entry under a new name has been added. -/
theorem pushed {v : Nat} (pushed : Table.Pushed (dirTable p k) (dirTable p' k) name v)
    (dir : isdir (p'.cell k) = isdir (p.cell k)) (absent : (dirTable p k).find name = none) (nonempty : name ≠ [])
    (short : name.length ≤ 13) : DirOk p' k := by
  have distinct := pushed.distinct ok.distinct absent
  obtain ⟨rows, old, new, _⟩ := pushed
  replace rows : size (p'.cell k) = size (p.cell k) + 1 := rows
  replace new : entName p' k (size (p.cell k)) = name := new
  have row : ∀ i < size (p.cell k), entName p' k i = entName p k i := fun i hi => (old i hi).1
  have two := ok.two
  refine ⟨?_, by omega, by rw [row 0 (by omega), ok.dot], by rw [row 1 (by omega), ok.dotdot], distinct, fun i hi => ?_⟩
  · rw [dir]
    exact ok.dir
  · by_cases last : i = size (p.cell k)
    · rw [last, new]
      exact ⟨nonempty, short⟩
    · rw [row i (by omega)]
      exact ok.named i (by omega)

end DirOk

/-- Removing a name that is there moves the last entry into its place. -/
theorem dnodeRemove_hit (owned : Owned L s.stores.pool) (live : k ∈ L) (ok : DirOk s.stores.pool k)
    (clean : 0 ∉ name) (short : name.length ≤ 13) (within : r < size (s.stores.pool.cell k))
    (hit : entName s.stores.pool k r = name) (run : dnodeRemove s k (Bytes.cstr name tail) = s') :
    (∃ buf, Reset L s s' k (size (s.stores.pool.cell k) - 1) buf) ∧
      Table.Dropped (dirTable s.stores.pool k) (dirTable s'.stores.pool k) r ∧
      nlink (s'.stores.pool.cell k) = ushort ((nlink (s.stores.pool.cell k) : Int) - 1) ∧ s'.ub = s.ub := by
  obtain ⟨d, listed, bytes⟩ := owned.dnodeListing_spec live ok.dir
  have fits := owned.fits k live
  have range := owned.node_range live
  have cacheIs := endOf_dir ok.dir
  have small : ushort k = k := ushort_nat (by omega)
  rw [cacheIs] at bytes fits
  have agree := rowsOf_agree bytes fits rfl
  have distinct := agree.distinct ok.distinct
  have named : ∀ i < size (s.stores.pool.cell k), ((rowsOf d (size (s.stores.pool.cell k))).key i).length ≤ 13 :=
    fun i hi => (congrArg List.length (agree.2 i hi).1).trans_le (ok.named i hi).2
  have rows : size (s.stores.pool.cell k) ≤ 2086 := by simp only [diEntSize] at fits; omega
  replace hit : (rowsOf d (size (s.stores.pool.cell k))).key r = Bytes.chars (Bytes.cstr name tail) 0 13 := by
    rw [chars_name clean short]
    exact (agree.2 r within).1.trans hit
  rw [dnodeRemove, small, listed] at run
  replace run : removeEntry { s with d } k (size (s.stores.pool.cell k)) r = s' :=
    (dnodeRemoveLoop_hit (s := { s with d }) rows named distinct within hit).symm.trans run
  generalize size (s.stores.pool.cell k) = n at *
  have cast : (n : Int) - 1 = ((n - 1 : Nat) : Int) := by omega
  rw [removeEntry, small, cast] at run
  generalize buf : d.copy (diEntSize * r) (diEnt d (n - 1)) 0 diEntSize = d' at *
  replace fits : diEntSize * (n - 1) ≤ 33376 := by simp only [diEntSize]; omega
  generalize mid : dnodeListingSet { s with d := d' } k (n - 1 : Nat) = s₁ at run
  obtain ⟨reset, counted, ub⟩ := dnodeSet_spec (n := n - 1) (v := fun a => ushort ((a : Int) - 1)) owned live ok.dir
    (by omega) (fun _ => ushort_lt _) mid run (by rw [cacheIs]; exact .of_le (Nat.mul_le_mul_left _ (by omega)))
  have dropped := rowsOf_dropped d n r
  rw [buf] at dropped
  exact ⟨⟨d', reset⟩, (agree.dropped dropped).agree (reset.agree ok.dir fits), counted, ub⟩

end Sfs
