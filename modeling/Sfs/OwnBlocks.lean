import Sfs.Hole

namespace Sfs

/-- Block `b` is a data block that is neither free nor in another file than `k`. -/
structure Sole (L : Set Nat) (p : Pool Bytes) (k : Nat) (fl : List Nat) (b : Nat) : Prop where
  lower : 1025 ≤ b
  upper : b < 32768
  apart : ∀ m ∈ L, m ≠ k → isdir (p.cell m) = 0 → b ∉ blocksOf p m
  off : b ∉ fl

/-- The blocks of file `k` are data blocks that no other file and not the
free list contains. -/
def OwnBlocks (L : Set Nat) (v : Stores) (k : Nat) : Prop :=
  ∃ fl, FreeList v fl ∧ ∀ b ∈ blocksOf v.pool k, Sole L v.pool k fl b

variable {L : Set Nat} {s s' : State} {v : Stores} {p p' : Pool Bytes} {fl fl' taken : List Nat}
  {b i j k m n offset len : Nat} {buf f : Bytes} {x : List UInt8}

theorem FreeList.unique (list : FreeList v fl) (list' : FreeList v fl') : fl = fl' := list.chain.unique list'.chain

theorem ownBlocks_iff (list : FreeList v fl) :
    OwnBlocks L v k ↔ ∀ j < size (v.pool.cell k), Sole L v.pool k fl (blockNo v.pool k j) := by
  constructor
  · rintro ⟨fl', list', sole⟩ j before
    rw [list.unique list']
    exact sole _ (List.mem_map.mpr ⟨j, List.mem_range.mpr before, rfl⟩)
  · intro sole
    refine ⟨fl, list, fun b member => ?_⟩
    obtain ⟨j, within, rfl⟩ := List.mem_map.mp member
    exact sole j (List.mem_range.mp within)

/-- The other files have the same blocks as before. -/
def OthersKept (L : Set Nat) (p p' : Pool Bytes) (k : Nat) : Prop :=
  ∀ m ∈ L, m ≠ k → isdir (p'.cell m) = isdir (p.cell m) ∧ (isdir (p.cell m) = 0 → blocksOf p' m = blocksOf p m)

theorem Repaged.others {g : Bytes} (repaged : Repaged L p p' k n g) (owned : Owned L p) (live : k ∈ L) :
    OthersKept L p p' k := fun m live' ne => by
  have same := repaged.same owned live live' ne
  exact ⟨by rw [same.cell_eq], fun file => same.blocksOf_eq file (owned.fits m live')⟩

theorem Sole.congr (others : OthersKept L p p' k) : Sole L p' k fl b ↔ Sole L p k fl b := by
  constructor
  · rintro ⟨lower, upper, apart, off⟩
    refine ⟨lower, upper, fun m live ne file => ?_, off⟩
    obtain ⟨kind, blocks⟩ := others m live ne
    rw [← blocks file]
    exact apart m live ne (kind.trans file)
  · rintro ⟨lower, upper, apart, off⟩
    refine ⟨lower, upper, fun m live ne file => ?_, off⟩
    obtain ⟨kind, blocks⟩ := others m live ne
    rw [kind] at file
    rw [blocks file]
    exact apart m live ne file

namespace Consistent

variable (wf : Consistent L s (taken ++ fl')) (live : k ∈ L) (file : isdir (s.stores.pool.cell k) = 0)

include wf live file

/-- The blocks that a file has, and blocks taken from the free list, are not in other files. -/
theorem sole_old (before : j < size (s.stores.pool.cell k)) : Sole L s.stores.pool k fl' (blockNo s.stores.pool k j) := by
  have member : blockNo s.stores.pool k j ∈ blocksOf s.stores.pool k :=
    List.mem_map.mpr ⟨j, List.mem_range.mpr before, rfl⟩
  obtain ⟨lower, upper⟩ := wf.blocks.area k live file _ member
  refine ⟨lower, upper, fun m live' ne file' => ?_, fun free => ?_⟩
  · exact wf.blocks.apart k live m live' file file' ne.symm member
  · exact List.disjoint_of_nodup_append (wf.blocks.nodup k live file) member (List.mem_append_right _ free)

omit live file in
theorem sole_taken (member : b ∈ taken) : Sole L s.stores.pool k fl' b := by
  obtain ⟨lower, upper⟩ := wf.list.area b (List.mem_append_left _ member)
  refine ⟨lower, upper, fun m live' _ file' held => ?_, fun free => ?_⟩
  · exact List.disjoint_of_nodup_append (wf.blocks.nodup m live' file') held (List.mem_append_left _ member)
  · exact List.disjoint_of_nodup_append wf.list.nodup member free

theorem old_not_taken (before : j < size (s.stores.pool.cell k)) : blockNo s.stores.pool k j ∉ taken := fun member =>
  List.disjoint_of_nodup_append (wf.blocks.nodup k live file)
    (List.mem_map.mpr ⟨j, List.mem_range.mpr before, rfl⟩) (List.mem_append_left _ member)

/-- Whether the blocks are the file's own is a matter of the new entries. -/
theorem ownBlocks_iff_new (list : FreeList s'.stores fl') (others : OthersKept L s.stores.pool s'.stores.pool k)
    (old : ∀ j < size (s.stores.pool.cell k), blockNo s'.stores.pool k j = blockNo s.stores.pool k j) :
    OwnBlocks L s'.stores k ↔ ∀ j, size (s.stores.pool.cell k) ≤ j → j < size (s'.stores.pool.cell k) →
      Sole L s.stores.pool k fl' (blockNo s'.stores.pool k j) := by
  rw [ownBlocks_iff list]
  simp only [Sole.congr others]
  refine ⟨fun sole j _ before => sole j before, fun sole j before => ?_⟩
  by_cases was : j < size (s.stores.pool.cell k)
  · rw [old j was]
    exact wf.sole_old live file was
  · exact sole j (by omega) before

end Consistent

/-- What a read within the size of a file returns. -/
theorem fstreamRead_bytes_iff (offset len : Nat) (owned : Owned L s.stores.pool) (live : k ∈ L)
    (file : isdir (s.stores.pool.cell k) = 0)
    (within : offset + len ≤ fsize (s.stores.pool.cell k))
    (covered : fsize (s.stores.pool.cell k) ≤ 512 * size (s.stores.pool.cell k))
    (area : ∀ b ∈ blocksOf s.stores.pool k, 1025 ≤ b ∧ b < 32768) (length : x.length = len) :
    (fstreamRead s k len offset).1.bytes = x ↔ ∀ j < len, x[j]? =
      some (s.stores.data (blockNo s.stores.pool k ((offset + j) / 512)) ((offset + j) % 512)) := by
  have fits := owned.fits k live
  rw [endOf_file file, blknumSize] at fits
  have whole := length_contentOf covered
  rw [fstreamRead_spec owned live file (by omega) covered area]
  have byte : ∀ j < len, (((contentOf s.stores k).drop offset).take len)[j]? =
      some (s.stores.data (blockNo s.stores.pool k ((offset + j) / 512)) ((offset + j) % 512)) := fun j hj => by
    rw [List.getElem?_take_of_lt hj, List.getElem?_drop, contentOf_getElem? (by omega) (by omega)]
  constructor
  · intro same j hj
    rw [← byte j hj, ← same]
  · intro bytes
    refine List.ext_getElem? fun j => ?_
    by_cases hj : j < len
    · rw [bytes j hj]
      exact byte j hj
    · rw [List.getElem?_eq_none (by rw [List.length_take, List.length_drop, whole]; omega),
        List.getElem?_eq_none (by omega)]

end Sfs
