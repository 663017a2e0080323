import Sfs.FileStep
import Sfs.Lib.Chunks

namespace Sfs

/-- The inodes and blocks of a state are in order. `L` are the inodes of files
and directories, and `fl` is the list of free blocks. -/
structure Consistent (L : Set Nat) (s : State) (fl : List Nat) : Prop where
  owned : Owned L s.stores.pool
  list : FreeList s.stores fl
  blocks : FileBlocks L s.stores.pool fl
  covered : ∀ k ∈ L, isdir (s.stores.pool.cell k) = 0 →
    fsize (s.stores.pool.cell k) ≤ 512 * size (s.stores.pool.cell k)

/-- The number of free blocks on record is right as well. -/
structure WellFormed (L : Set Nat) (s : State) (fl : List Nat) : Prop extends Consistent L s fl where
  count : freeBlockSize s.stores.sup = fl.length

def blockBytes (x : Bytes) : List UInt8 := (List.range 512).map x

/-- The first `fsize` bytes of the blocks of file `k`. -/
def contentOf (v : Stores) (k : Nat) : List UInt8 :=
  ((blocksOf v.pool k).flatMap fun b => blockBytes (v.data b)).take (fsize (v.pool.cell k))

/-- Node `m` has the same attributes and listing and, if it is a file, the same
content as before. -/
structure Untouched (s s' : State) (m : Nat) : Prop where
  inode : s'.stores.pool.cell m = s.stores.pool.cell m
  listing : ∀ o, Filled (endOf (s.stores.pool.cell m)) o → bytesOf s'.stores.pool m o = bytesOf s.stores.pool m o
  content : isdir (s.stores.pool.cell m) = 0 → contentOf s'.stores m = contentOf s.stores m

variable {L : Set Nat} {s s' : State} {v w : Stores} {fl fl' : List Nat} {k m n i : Nat}

@[simp] theorem length_blockBytes (x : Bytes) : (blockBytes x).length = 512 := by
  rw [blockBytes, List.length_map, List.length_range]

theorem length_blocksOf (p : Pool Bytes) (k : Nat) : (blocksOf p k).length = size (p.cell k) := by
  rw [blocksOf, List.length_map, List.length_range]

theorem blocksOf_getElem? {p : Pool Bytes} (before : i < size (p.cell k)) :
    (blocksOf p k)[i]? = some (blockNo p k i) := by
  rw [blocksOf, List.getElem?_map, List.getElem?_range before]
  rfl

theorem contentOf_getElem? (before : i < fsize (v.pool.cell k)) (covered : i < 512 * size (v.pool.cell k)) :
    (contentOf v k)[i]? = some (v.data (blockNo v.pool k (i / 512)) (i % 512)) := by
  rw [contentOf, List.getElem?_take_of_lt before, Chunks.getElem?_flatMap (fun _ => length_blockBytes _) (by omega),
    blocksOf_getElem? (by omega), Option.bind_some, blockBytes, List.getElem?_map, List.getElem?_range (by omega)]
  rfl

theorem length_contentOf (covered : fsize (v.pool.cell k) ≤ 512 * size (v.pool.cell k)) :
    (contentOf v k).length = fsize (v.pool.cell k) := by
  rw [contentOf, List.length_take, Chunks.length_flatMap (fun _ => length_blockBytes _), length_blocksOf]
  omega

/-- A content is determined by its bytes. -/
theorem contentOf_eq {x : List UInt8} (covered : fsize (v.pool.cell k) ≤ 512 * size (v.pool.cell k))
    (length : x.length = fsize (v.pool.cell k))
    (bytes : ∀ i < fsize (v.pool.cell k), x[i]? = some (v.data (blockNo v.pool k (i / 512)) (i % 512))) :
    contentOf v k = x := by
  refine List.ext_getElem? fun i => ?_
  by_cases before : i < fsize (v.pool.cell k)
  · rw [contentOf_getElem? before (by omega), bytes i before]
  · rw [List.getElem?_eq_none (by rw [length_contentOf covered]; omega), List.getElem?_eq_none (by omega)]

theorem pieces_congr {bl : List Nat} {x y : Nat → Bytes} (data : ∀ b ∈ bl, x b = y b) :
    (bl.flatMap fun b => blockBytes (x b)) = bl.flatMap fun b => blockBytes (y b) :=
  List.flatMap_congr fun b member => by rw [data b member]

/-- A file that has been cut to its first blocks keeps the bytes in them. -/
theorem contentOf_prefix (kept : blocksOf w.pool k = (blocksOf v.pool k).take n)
    (data : ∀ b ∈ (blocksOf v.pool k).take n, w.data b = v.data b)
    (shorter : fsize (w.pool.cell k) ≤ fsize (v.pool.cell k)) (within : fsize (w.pool.cell k) ≤ 512 * n) :
    contentOf w k = (contentOf v k).take (fsize (w.pool.cell k)) := by
  rw [contentOf, contentOf, kept, pieces_congr data, Chunks.flatMap_take (fun _ => length_blockBytes _), List.take_take,
    List.take_take, Nat.min_eq_left within, Nat.min_eq_left shorter]

theorem Same.untouched (same : Same s.stores.pool s'.stores.pool m) (fits : endOf (s.stores.pool.cell m) ≤ 33376)
    (data : isdir (s.stores.pool.cell m) = 0 →
      ∀ b ∈ blocksOf s.stores.pool m, s'.stores.data b = s.stores.data b) : Untouched s s' m where
  inode := same.cell_eq
  listing _ filled := same.content_eq filled
  content file := by
    rw [contentOf, contentOf, same.cell_eq, same.blocksOf_eq file fits, pieces_congr (data file)]

theorem FileStep.untouched (step : FileStep L s s' k n fl fl') (wf : Consistent L s fl) (live : k ∈ L)
    (file : isdir (s.stores.pool.cell k) = 0) (live' : m ∈ L) (ne : m ≠ k) : Untouched s s' m := by
  obtain ⟨f, repaged⟩ := step.repaged
  refine (repaged.same wf.owned live live' ne).untouched (wf.owned.fits m live') fun file' b member => ?_
  refine step.data b (fun held => ?_) fun free => ?_
  · exact wf.blocks.apart m live' k live file' file ne member held
  · exact List.disjoint_of_nodup_append (wf.blocks.nodup m live' file') member free

/-- The state after the change of a file is consistent if its blocks cover its bytes. -/
theorem FileStep.consistent (step : FileStep L s s' k n fl fl') (wf : Consistent L s fl) (live : k ∈ L)
    (file : isdir (s.stores.pool.cell k) = 0)
    (covered : fsize (s'.stores.pool.cell k) ≤ 512 * size (s'.stores.pool.cell k)) : Consistent L s' fl' := by
  obtain ⟨f, repaged⟩ := step.repaged
  have same : ∀ m ∈ L, m ≠ k → Same s.stores.pool s'.stores.pool m := fun m live' ne =>
    repaged.same wf.owned live live' ne
  refine ⟨repaged.owned, step.list, wf.blocks.move live file wf.list.area (fun m live' ne file' => ?_) step.moved,
    fun m live' file' => ?_⟩
  · have untouched := same m live' ne
    rw [untouched.cell_eq] at file'
    exact ⟨file', untouched.blocksOf_eq file' (wf.owned.fits m live')⟩
  · by_cases here : m = k
    · rw [here]
      exact covered
    · rw [(same m live' here).cell_eq] at file' ⊢
      exact wf.covered m live' file'

end Sfs
