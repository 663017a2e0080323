import Mathlib.Data.List.Perm.Basic
import Sfs.Reset
import Sfs.WriteLoop

namespace Sfs

/-- The block numbers of file `k`. -/
def blocksOf (p : Pool Bytes) (k : Nat) : List Nat := (List.range (size (p.cell k))).map (blockNo p k)

/-- The blocks of the files of `L` are data blocks, and no block is in two
places, the free list `fl` included. -/
structure FileBlocks (L : Set Nat) (p : Pool Bytes) (fl : List Nat) : Prop where
  area : ∀ k ∈ L, isdir (p.cell k) = 0 → ∀ b ∈ blocksOf p k, 1025 ≤ b ∧ b < 32768
  nodup : ∀ k ∈ L, isdir (p.cell k) = 0 → (blocksOf p k ++ fl).Nodup
  apart : ∀ k ∈ L, ∀ k' ∈ L, isdir (p.cell k) = 0 → isdir (p.cell k') = 0 → k ≠ k' →
    (blocksOf p k).Disjoint (blocksOf p k')

variable {L L' : Set Nat} {s s' : State} {p p' : Pool Bytes} {fl fl' : List Nat} {k m n i : Nat}
  {buf f : Bytes}

theorem Same.blocksOf_eq (same : Same p p' m) (file : isdir (p.cell m) = 0)
    (fits : endOf (p.cell m) ≤ 33376) : blocksOf p' m = blocksOf p m := by
  have bytes : ∀ o, Filled (blknumSize * size (p.cell m)) o → bytesOf p' m o = bytesOf p m o := fun o h =>
    same.content_eq (by rwa [endOf_file file])
  rw [endOf_file file] at fits
  rw [blocksOf, blocksOf, same.cell_eq]
  exact List.map_congr_left fun i hi => block_congr bytes fits (List.mem_range.mp hi)

theorem Repaged.blockNo_eq (repaged : Repaged L p p' k n buf) (file : isdir (p.cell k) = 0)
    (within : blknumSize * n ≤ 33376) (before : i < n) : blockNo p' k i = fNo buf i := by
  have content := repaged.resized.content
  rw [entrySize, if_neg (not_not.mpr file)] at content
  exact block_congr content within before

/-- The blocks of a file that has been given the first entries of `buf`. -/
theorem Repaged.blocksOf_eq (repaged : Repaged L p p' k n buf) (file : isdir (p.cell k) = 0)
    (within : blknumSize * n ≤ 33376) : blocksOf p' k = (List.range n).map (fNo buf) := by
  rw [blocksOf, repaged.resized.size]
  exact List.map_congr_left fun i hi => repaged.blockNo_eq file within (List.mem_range.mp hi)

namespace FileBlocks

theorem mono (blocks : FileBlocks L p fl) (sub : L' ⊆ L) : FileBlocks L' p fl where
  area k hk := blocks.area k (sub hk)
  nodup k hk := blocks.nodup k (sub hk)
  apart k hk k' hk' := blocks.apart k (sub hk) k' (sub hk')

/-- Every file is as it was, or has no blocks. -/
theorem congr (blocks : FileBlocks L p fl) (nodup : fl.Nodup)
    (old : ∀ m ∈ L', isdir (p'.cell m) = 0 →
      (m ∈ L ∧ isdir (p.cell m) = 0 ∧ blocksOf p' m = blocksOf p m) ∨ blocksOf p' m = []) :
    FileBlocks L' p' fl := by
  refine ⟨fun m hm file b member => ?_, fun m hm file => ?_, fun m hm m' hm' file file' ne => ?_⟩
  · rcases old m hm file with ⟨live, was, eq⟩ | none
    · exact blocks.area m live was b (eq ▸ member)
    · rw [none] at member
      exact absurd member List.not_mem_nil
  · rcases old m hm file with ⟨live, was, eq⟩ | none
    · rw [eq]
      exact blocks.nodup m live was
    · rw [none]
      exact nodup
  · rcases old m hm file with ⟨live, was, eq⟩ | none
    · rcases old m' hm' file' with ⟨live', was', eq'⟩ | none'
      · rw [eq, eq']
        exact blocks.apart m live m' live' was was' ne
      · rw [none']
        exact List.disjoint_nil_right _
    · rw [none]
      exact List.disjoint_nil_left _

/-- Blocks have moved between file `k` and the free list. -/
theorem move (blocks : FileBlocks L p fl) (live : k ∈ L) (file : isdir (p.cell k) = 0)
    (area : ∀ b ∈ fl, 1025 ≤ b ∧ b < 32768)
    (old : ∀ m ∈ L, m ≠ k → isdir (p'.cell m) = 0 →
      isdir (p.cell m) = 0 ∧ blocksOf p' m = blocksOf p m)
    (moved : (blocksOf p' k ++ fl').Perm (blocksOf p k ++ fl)) : FileBlocks L p' fl' := by
  have whole := moved.nodup_iff.mpr (blocks.nodup k live file)
  have away : ∀ m ∈ L, m ≠ k → isdir (p'.cell m) = 0 →
      (blocksOf p' m).Disjoint (blocksOf p' k ++ fl') := by
    intro m hm ne file' b inM inK
    obtain ⟨was, eq⟩ := old m hm ne file'
    rw [eq] at inM
    rcases List.mem_append.mp (moved.subset inK) with held | free
    · exact blocks.apart m hm k live was file ne inM held
    · exact List.disjoint_of_nodup_append (blocks.nodup m hm was) inM free
  refine ⟨fun m hm file' b member => ?_, fun m hm file' => ?_, fun m hm m' hm' file₁ file₂ ne => ?_⟩
  · by_cases here : m = k
    · subst here
      rcases List.mem_append.mp (moved.subset (List.mem_append_left _ member)) with held | free
      · exact blocks.area m hm file b held
      · exact area b free
    · obtain ⟨was, eq⟩ := old m hm here file'
      exact blocks.area m hm was b (eq ▸ member)
  · by_cases here : m = k
    · rw [here]
      exact whole
    · obtain ⟨was, eq⟩ := old m hm here file'
      refine List.nodup_append'.mpr ⟨?_, whole.of_append_right, ?_⟩
      · rw [eq]
        exact (blocks.nodup m hm was).of_append_left
      · exact fun b inM free => away m hm here file' inM (List.mem_append_right _ free)
  · by_cases here : m = k
    · subst here
      exact fun b inM inM' => away m' hm' ne.symm file₂ inM' (List.mem_append_left _ inM)
    · by_cases here' : m' = k
      · subst here'
        exact fun b inM inM' => away m hm here file₁ inM (List.mem_append_left _ inM')
      · obtain ⟨was, eq⟩ := old m hm here file₁
        obtain ⟨was', eq'⟩ := old m' hm' here' file₂
        rw [eq, eq']
        exact blocks.apart m hm m' hm' was was' ne

/-- The listing of a file holds distinct data blocks. -/
theorem held (blocks : FileBlocks L p fl) (live : k ∈ L) (file : isdir (p.cell k) = 0)
    (same : ∀ i < size (p.cell k), fNo f i = blockNo p k i) : Held f (size (p.cell k)) fl := by
  have member : ∀ i < size (p.cell k), blockNo p k i ∈ blocksOf p k := fun i hi =>
    List.mem_map.mpr ⟨i, List.mem_range.mpr hi, rfl⟩
  have nodup := blocks.nodup k live file
  refine ⟨fun j hj => ?_, fun j hj => ?_, fun i hi j hj equal => ?_⟩
  · rw [same j hj]
    exact blocks.area k live file _ (member j hj)
  · rw [same j hj]
    exact List.disjoint_of_nodup_append nodup (member j hj)
  · rw [same i hi, same j hj] at equal
    exact List.inj_on_of_nodup_map nodup.of_append_left (List.mem_range.mpr hi) (List.mem_range.mpr hj) equal

end FileBlocks

end Sfs
