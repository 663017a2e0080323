import Sfs.Good

namespace Sfs

/-- The block numbers that `fnode_listing` reports. -/
def listedFile (s : State) (k : Nat) : List Nat :=
  (List.range (fnodeListing s k).1).map (fNo (fnodeListing s k).2.f)

/-- The entries that `dnode_listing` reports. -/
def listedDir (s : State) (k : Nat) : List Bytes :=
  (List.range (dnodeListing s k).1).map (diEnt (dnodeListing s k).2.d)

/-- The nodes other than `k` are listed as before. -/
structure ListedSame (L : Set Nat) (s s' : State) (k : Nat) : Prop where
  files : ∀ m ∈ L, m ≠ k → isdir (s.stores.pool.cell m) = 0 → listedFile s' m = listedFile s m
  dirs : ∀ m ∈ L, m ≠ k → isdir (s.stores.pool.cell m) ≠ 0 → listedDir s' m = listedDir s m

variable {L : Set Nat} {s s' : State} {p p' : Pool Bytes} {k m n i : Nat} {buf d d' : Bytes}

theorem diEnt_congr (same : ∀ o < diEntSize * n, d' o = d o) (before : i < n) : diEnt d' i = diEnt d i := by
  have step : diEntSize * (i + 1) ≤ diEntSize * n := Nat.mul_le_mul_left _ before
  exact Bytes.window_congr fun o ho => same _ (by rw [Nat.mul_add] at step; omega)

/-- What is listed depends on the pages of the node, past its last page on the buffer. -/
theorem Holding.listing_eq (holding : Holding L s.stores.pool) (holding' : Holding L s'.stores.pool) (live : m ∈ L)
    (same : Same s.stores.pool s'.stores.pool m) (buf : Bytes) :
    listing (entrySize (s.stores.pool.cell m)) s' m buf = listing (entrySize (s.stores.pool.cell m)) s m buf := by
  obtain ⟨rows, filled, rest⟩ := holding.listing_spec buf live
  obtain ⟨rows', filled', rest'⟩ := holding'.listing_spec buf live
  rw [same.cell_eq] at rows' filled' rest'
  refine Prod.ext (rows'.trans rows.symm) (funext fun o => ?_)
  by_cases within : Filled (endOf (s.stores.pool.cell m)) o
  · rw [filled' o within, filled o within]
    exact same.content_eq within
  · rw [rest' o within, rest o within]

theorem Quiet.listedSame (quiet : Quiet s s') (holding : Holding L s.stores.pool)
    (holding' : Holding L s'.stores.pool) (same : ∀ m ∈ L, m ≠ k → Same s.stores.pool s'.stores.pool m) :
    ListedSame L s s' k := by
  constructor
  · intro m live ne file
    have eq := holding.listing_eq holding' live (same m live ne) s.f
    rw [entrySize, if_neg (not_not.mpr file)] at eq
    rw [listedFile, listedFile, fnodeListing, fnodeListing, quiet.f_eq, eq]
  · intro m live ne dir
    have eq := holding.listing_eq holding' live (same m live ne) s.d
    rw [entrySize, if_pos dir] at eq
    rw [listedDir, listedDir, dnodeListing, dnodeListing, quiet.d_eq, eq]

section

variable (holding : Holding L s.stores.pool) (live : k ∈ L)

include holding live

/-- Setting the listing of a file and reading it back. -/
theorem fnodeListingSet_roundTrip (file : isdir (s.stores.pool.cell k) = 0) (limit : n ≤ FENTRY_MAX_SIZE)
    (room : pageCount (blknumSize * n) (endOf (s.stores.pool.cell k)) ≤ s.stores.pool.freeCount 1024)
    (run : fnodeListingSet s k n = s') :
    listedFile s' k = (List.range n).map (fNo s.f) ∧ ListedSame L s s' k ∧ Holding L s'.stores.pool ∧
      Resized s.stores.pool s'.stores.pool k (blknumSize * n) n s.f (endOf (s.stores.pool.cell k)) := by
  simp only [FENTRY_MAX_SIZE] at limit
  have entry : entrySize (s.stores.pool.cell k) = blknumSize := if_neg (not_not.mpr file)
  rw [fnodeListingSet_eq limit, ← entry] at run
  rw [← entry] at room ⊢
  obtain ⟨quiet, _, resized, ends, _, holding'⟩ := holding.listingSet_spec live run (by omega) (Or.inr room)
  have file' : isdir (s'.stores.pool.cell k) = 0 := by rw [resized.isdir_eq, file]
  refine ⟨?_, quiet.listedSame holding holding' fun m live' ne => resized.same holding.toMarked live rfl live' ne, holding',
    resized⟩
  obtain ⟨f, listed, bytes, _⟩ := holding'.fnodeListing_spec live file'
  rw [listedFile, listed, resized.size]
  refine List.map_congr_left fun i hi => ?_
  refine block_congr (n := n) (fun o filled => ?_) (by simp only [blknumSize]; omega) (List.mem_range.mp hi)
  rw [ends, entry] at bytes
  exact (bytes o filled).trans (resized.content o (by rwa [entry]))

/-- Setting the listing of a directory and reading it back. -/
theorem dnodeListingSet_roundTrip (dir : isdir (s.stores.pool.cell k) ≠ 0) (limit : n < DENTRY_MAX_SIZE)
    (room : pageCount (diEntSize * n) (endOf (s.stores.pool.cell k)) ≤ s.stores.pool.freeCount 1024)
    (run : dnodeListingSet s k n = s') :
    listedDir s' k = (List.range n).map (diEnt s.d) ∧ ListedSame L s s' k ∧ Holding L s'.stores.pool ∧
      Resized s.stores.pool s'.stores.pool k (diEntSize * n) n s.d (endOf (s.stores.pool.cell k)) := by
  simp only [DENTRY_MAX_SIZE] at limit
  have entry : entrySize (s.stores.pool.cell k) = diEntSize := if_pos dir
  rw [dnodeListingSet_eq limit, ← entry] at run
  rw [← entry] at room ⊢
  obtain ⟨quiet, _, resized, ends, _, holding'⟩ := holding.listingSet_spec live run (by omega) (Or.inr room)
  have dir' : isdir (s'.stores.pool.cell k) ≠ 0 := by rwa [resized.isdir_eq]
  refine ⟨?_, quiet.listedSame holding holding' fun m live' ne => resized.same holding.toMarked live rfl live' ne, holding',
    resized⟩
  obtain ⟨d, listed, bytes⟩ := holding'.dnodeListing_spec live dir'
  rw [listedDir, listed, resized.size]
  refine List.map_congr_left fun i hi => ?_
  refine diEnt_congr (n := n) (fun o before => ?_) (List.mem_range.mp hi)
  have filled : Filled (diEntSize * n) o := filled_of_lt before (by simp only [diEntSize]; omega)
  rw [ends, entry] at bytes
  exact (bytes o filled).trans (resized.content o (by rwa [entry]))

/-- The listing functions are inverse to each other for all sizes, whatever
the buffers held, and leave the other nodes alone. -/
theorem listingSet_roundTrip :
    (∀ n ≤ FENTRY_MAX_SIZE, isdir (s.stores.pool.cell k) = 0 →
      pageCount (blknumSize * n) (endOf (s.stores.pool.cell k)) ≤ s.stores.pool.freeCount 1024 →
      listedFile (fnodeListingSet s k n) k = (List.range n).map (fNo s.f) ∧
        ListedSame L s (fnodeListingSet s k n) k ∧ Marked L (fnodeListingSet s k n).stores.pool) ∧
    ∀ n < DENTRY_MAX_SIZE, isdir (s.stores.pool.cell k) ≠ 0 →
      pageCount (diEntSize * n) (endOf (s.stores.pool.cell k)) ≤ s.stores.pool.freeCount 1024 →
      listedDir (dnodeListingSet s k n) k = (List.range n).map (diEnt s.d) ∧
        ListedSame L s (dnodeListingSet s k n) k ∧ Marked L (dnodeListingSet s k n).stores.pool := by
  refine ⟨fun n limit file room => ?_, fun n limit dir room => ?_⟩
  · obtain ⟨listed, others, holding', _⟩ := fnodeListingSet_roundTrip holding live file limit room rfl
    exact ⟨listed, others, holding'.toMarked⟩
  · obtain ⟨listed, others, holding', _⟩ := dnodeListingSet_roundTrip holding live dir limit room rfl
    exact ⟨listed, others, holding'.toMarked⟩

end

theorem Initial.room_root (initial : Initial s) (pages : pageCount (diEntSize * n) 32 ≤ 1021) :
    pageCount (diEntSize * n) (endOf (s.stores.pool.cell 2)) ≤ s.stores.pool.freeCount 1024 := by
  rw [initial.root_end, initial.spare]
  exact pages

/-- The root is given 47 entries, on six pages and an index page. -/
theorem listingSet_roundTrip_root :
    listedDir (dnodeListingSet (sfsInit Bytes.zero) 2 (47 : Nat)) 2 = (List.range 47).map (diEnt (sfsInit Bytes.zero).d) ∧
      ListedSame {2} (sfsInit Bytes.zero) (dnodeListingSet (sfsInit Bytes.zero) 2 (47 : Nat)) 2 ∧
      Marked {2} (dnodeListingSet (sfsInit Bytes.zero) 2 (47 : Nat)).stores.pool := by
  have initial := sfsInit_initial Bytes.zero
  exact (listingSet_roundTrip initial.good.owned.toHolding rfl).2 47 (by decide) initial.good.tree.top.dir
    (initial.room_root (by decide))

/-! Slot 1 is kept by the bitmap alone: where it is marked free, it is handed out. -/

/-- A new file system on which only slot 1 is marked free. -/
def slotOneFree : State :=
  dnodeInit (blockWrite (boot Bytes.zero) INODE_BLK_SIZE (Function.update Bytes.zero 0 0x40)) 2 2

theorem bitAt_slotOne (q : Nat) : bitAt (Function.update Bytes.zero 0 0x40) q = decide (q = 1) := by
  have first : ∀ j : Fin 8, bitSet 0x40 j = decide (j.val = 1) := by decide
  have rest : ∀ j : Fin 8, bitSet 0 j = false := by decide
  rw [bitAt]
  by_cases zero : q / 8 = 0
  · rw [zero, Function.update_self, first ⟨q % 8, Nat.mod_lt _ (by omega)⟩]
    simp only
    congr 1
    rw [eq_iff_iff]
    omega
  · rw [Function.update_of_ne zero]
    have ne : q ≠ 1 := by omega
    have zeros : (Bytes.zero : Bytes) (q / 8) = 0 := rfl
    rw [zeros, decide_eq_false ne]
    exact rest ⟨q % 8, Nat.mod_lt _ (by omega)⟩

/-- A bitmap with nothing but the bit of number 1. -/
theorem stores_slotOne (s : State) :
    (blockWrite s INODE_BLK_SIZE (Function.update Bytes.zero 0 0x40)).stores =
      s.stores.setPool ⟨s.stores.pool.cell, fun q => decide (q = 1)⟩ := by
  rw [stores_bitmapWrite]
  refine congrArg s.stores.setPool (congrArg (Pool.mk _) (funext fun q => ?_))
  by_cases inside : q < 4096
  · rw [bitAt_take inside, bitAt_slotOne, decide_eq_true inside, Bool.true_and]
  · have ne : q ≠ 1 := by omega
    simp [inside, ne]

theorem slotOneFree_pool : slotOneFree.stores.pool.cell 2 = (dnodeImage 2 2).take 128 ∧
    ∀ q, slotOneFree.stores.pool.free q = decide (q = 1) := by
  have stores := stores_slotOne (boot Bytes.zero)
  rw [slotOneFree, dnodeInit_eq]
  generalize blockWrite (boot Bytes.zero) INODE_BLK_SIZE _ = t at stores
  have stores' := stores_inodeDump (s := t) (k := 2) (x := dnodeImage 2 2) (by omega) (by omega)
  refine ⟨by rw [stores', Stores.setPool_pool, Pool.write_cell_self], fun q => ?_⟩
  rw [stores', Stores.setPool_pool, Pool.write_free, stores, Stores.setPool_pool]

/-- The loops for a listing that gets its first page. -/
theorem setPages_first {ptrEnd cacheEnd : Nat} {x : Bytes} (lower : 96 < ptrEnd) (upper : ptrEnd ≤ 224)
    (inline : cacheEnd ≤ 96) : setPages buf ptrEnd cacheEnd s x 96 0 4 =
      (inodeDump (freeInodePop s).2 (pnum (setPnum x 0 (freeInodePop s).1) 0) (pageOf buf 96),
        setPnum x 0 (freeInodePop s).1) := by
  have rest : ∀ j, ¬ 224 + 128 * j < cacheEnd := fun j => by omega
  simp only [setPages, ge_iff_le, show ¬ ptrEnd ≤ 96 by omega, inline, show ptrEnd ≤ 96 + 128 by omega,
    show ptrEnd ≤ 96 + 128 + 128 by omega, show ptrEnd ≤ 96 + 128 + 128 + 128 by omega,
    show ¬ 96 + 128 < cacheEnd by omega, show ¬ 96 + 128 + 128 < cacheEnd by omega,
    show ¬ 96 + 128 + 128 + 128 < cacheEnd by omega, if_true, if_false]

/-- A node that gets its first page while number 1 is marked free, and no other. -/
theorem listingSet_slotOne {entry : Nat} (range : 2 ≤ k ∧ k < 1024) (own : ino (s.stores.pool.cell k) = k)
    (free : ∀ q, s.stores.pool.free q = decide (q = 1)) (kind : entry = entrySize (s.stores.pool.cell k))
    (inline : entry * size (s.stores.pool.cell k) ≤ 96) (lower : 96 < entry * n) (upper : entry * n ≤ 224)
    (small : n < 65536) (run : listingSet entry buf s k n = s') :
    pnum (s'.stores.pool.cell k) 0 = 1 ∧ endOf (s'.stores.pool.cell k) = entry * n := by
  have loaded : inodeLoad s k = s.stores.pool.cell k := inodeLoad_cell (by omega) (by omega)
  rcases freeInodePop_cases s with ⟨q, disk, pop, _, isFree, _, _⟩ | ⟨_, empty⟩
  swap
  · have := empty 1 (by omega)
    rw [free] at this
    exact absurd this (by decide)
  obtain rfl : q = 1 := by simpa [free] using isFree
  have natural : ((n : Nat) : Int).toNat = n := rfl
  simp only [listingSet, loaded, natural, ushort_nat small] at run
  generalize headIs : (setSize (s.stores.pool.cell k) n).copy 16 buf 0 96 = x at run
  rw [setPages_first lower upper inline, setIndex_idle (by omega) (by omega), pop] at run
  generalize inodeDump _ _ (pageOf buf 96) = t at run
  have header : ∀ o, o < 4 ∨ 6 ≤ o ∧ o < 16 → setPnum x 0 1 o = s.stores.pool.cell k o := fun o out => by
    rw [setPnum, Bytes.put16_apply_of_ne (by omega), ← headIs]
    exact copy_header_apply (by omega)
  have own' : ino (setPnum x 0 1) = k := by
    rw [← own]
    exact Bytes.get16_congr (header 0 (by omega)) (header 1 (by omega))
  have stores' := stores_inodeDump (s := t) (k := k) (x := setPnum x 0 1) (by omega) (by omega)
  rw [own'] at run
  rw [run] at stores'
  have cell : s'.stores.pool.cell k = (setPnum x 0 1).take 128 := by
    rw [stores', Stores.setPool_pool, Pool.write_cell_self]
  have kind' : entrySize (s'.stores.pool.cell k) = entry := by
    have same : isdir (s'.stores.pool.cell k) = isdir (s.stores.pool.cell k) := by
      rw [cell]
      exact (Bytes.take_apply_of_lt (by omega)).trans (header 12 (by omega))
    rw [kind, entrySize, entrySize, same]
  refine ⟨?_, ?_⟩
  · rw [cell, pnum, Bytes.get16_take (by omega)]
    exact pnum_setPnum_self (by omega)
  · have rows : size (s'.stores.pool.cell k) = size (setSize (s.stores.pool.cell k) n) := by
      rw [cell, size, Bytes.get16_take (by omega)]
      refine Bytes.get16_congr ?_ ?_ <;> rw [setPnum, Bytes.put16_apply_of_ne (by omega), ← headIs] <;>
        exact Bytes.copy_apply_of_not_mem (by omega)
    rw [endOf, kind', rows, size, setSize, Bytes.get16_put16_self, Nat.mod_eq_of_lt small]

/-- A node whose first page has number 1 is not in order. -/
theorem not_marked_slotOne (live : k ∈ L) (number : pnum (p.cell k) 0 = 1) (paged : 96 < endOf (p.cell k)) :
    ¬ Marked L p := by
  intro marked
  have wants : Wants (endOf (p.cell k)) 0 := (wants_first (by omega)).mpr (by omega)
  have range := marked.range k live 0 (.page wants)
  rw [placeNo_page wants, pageNo_first (by omega), number] at range
  omega

theorem Pool.freeCount_slotOne (free : ∀ q, p.free q = decide (q = 1)) : p.freeCount 1024 = 1 := by
  have one : (Finset.range 1024).filter (p.free · = true) = {1} := by
    ext q
    simp only [Finset.mem_filter, Finset.mem_range, free, decide_eq_true_eq, Finset.mem_singleton]
    omega
  rw [Pool.freeCount, one, Finset.card_singleton]

theorem listingSet_takes_slot_one : Marked {2} slotOneFree.stores.pool ∧
    isdir (slotOneFree.stores.pool.cell 2) ≠ 0 ∧
    pageCount (diEntSize * 7) (endOf (slotOneFree.stores.pool.cell 2)) ≤ slotOneFree.stores.pool.freeCount 1024 ∧
    ¬ Marked {2} (dnodeListingSet slotOneFree 2 7).stores.pool := by
  obtain ⟨root, free⟩ := slotOneFree_pool
  generalize slotOneFree = s at *
  have ok : DirOk s.stores.pool 2 := dirOk_dnodeImage root
  have two : size (s.stores.pool.cell 2) = 2 := by
    rw [root, size, Bytes.get16_take (by omega)]
    exact size_dnodeImage
  have marked : Marked {2} s.stores.pool := marked_root root (by rw [free]; rfl)
  have seven : (7 : Int) = (7 : Nat) := rfl
  refine ⟨marked, ok.dir, ?_, ?_⟩
  · rw [endOf_dir ok.dir, two, Pool.freeCount_slotOne free]
    decide
  · generalize run : dnodeListingSet s 2 7 = s'
    rw [seven, dnodeListingSet_eq (by omega)] at run
    obtain ⟨number, ends⟩ := listingSet_slotOne (k := 2) (n := 7) (by omega) (marked.own 2 rfl) free
      (if_pos ok.dir).symm (by rw [two]; decide) (by decide) (by decide) (by decide) run
    exact not_marked_slotOne rfl number (by rw [ends]; decide)

end Sfs
