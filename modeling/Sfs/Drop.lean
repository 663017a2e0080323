import Sfs.Again

namespace Sfs

/-- The inodes and blocks of the nodes `L` on a disk with the free list `fl`. -/
structure Accounted (L : Set Nat) (s : State) (fl : List Nat) : Prop where
  marked : Marked L s.stores.pool
  fits : ∀ j ∈ L, endOf (s.stores.pool.cell j) ≤ 33376
  list : FreeList s.stores fl
  blocks : FileBlocks L s.stores.pool fl

/-- File `k` has its first `n` blocks only, and the others are free. -/
structure Dropped (L : Set Nat) (s s' : State) (k n : Nat) (fl : List Nat) : Prop where
  marked : Marked L s'.stores.pool
  isdir_eq : isdir (s'.stores.pool.cell k) = isdir (s.stores.pool.cell k)
  size_eq : size (s'.stores.pool.cell k) = n
  kept : blocksOf s'.stores.pool k = (blocksOf s.stores.pool k).take n
  same : ∀ j ∈ L, j ≠ k → Same s.stores.pool s'.stores.pool j
  list : FreeList s'.stores (((blocksOf s.stores.pool k).drop n).reverse ++ fl)
  data : ∀ b, b ∉ (blocksOf s.stores.pool k).drop n → s'.stores.data b = s.stores.data b
  number : freeBlockSize s'.stores.sup = int32 (freeBlockSize s.stores.sup + ((blocksOf s.stores.pool k).drop n).length)
  free : ∀ q, s.stores.pool.free q = true → s'.stores.pool.free q = true
  pages : ∀ c, Freed (blknumSize * n) (endOf (s.stores.pool.cell k)) c →
    s'.stores.pool.free (pageNo s.stores.pool.cell (s.stores.pool.cell k) c) = true

variable {L : Set Nat} {s s' t : State} {p p' : Pool Bytes} {fl : List Nat} {k n : Nat} {v : Int} {buf : Bytes}

theorem stores_setF (s : State) (f : Bytes) : ({ s with f } : State).stores = s.stores := stores_congr rfl

theorem Accounted.of_stores (acc : Accounted L s fl) (same : t.stores = s.stores) : Accounted L t fl := by
  obtain ⟨marked, fits, list, blocks⟩ := acc
  rw [← same] at marked fits list blocks
  exact ⟨marked, fits, list, blocks⟩

theorem Consistent.accounted (wf : Consistent L s fl) : Accounted L s fl :=
  ⟨wf.owned.toMarked, wf.owned.fits, wf.list, wf.blocks⟩

/-- A listing that is cut acquires no inode. -/
theorem Resized.free_shrink (resized : Resized p p' k (entrySize (p.cell k) * n) n buf (endOf (p.cell k)))
    (marked : Marked L p) (live : k ∈ L) (shrinks : entrySize (p.cell k) * n ≤ endOf (p.cell k)) {q : Nat}
    (free : p.free q = true) : p'.free q = true := by
  refine (resized.free q).mpr (Or.inl ⟨free, fun c wants same => ?_⟩)
  have was := wants.mono shrinks
  rw [resized.kept c wants was] at same
  rw [← same, (marked.pagesOk live).used c was] at free
  exact Bool.false_ne_true free

/-- `fstream_free` gives back the blocks from `n` on and the pages that are
not needed for the others. Setting the listing once more changes nothing. -/
theorem fstreamFree_dropped (acc : Accounted L s fl) (live : k ∈ L) (file : isdir (s.stores.pool.cell k) = 0)
    (shorter : n ≤ size (s.stores.pool.cell k)) (run : fstreamFree s k n = s') :
    Dropped L s s' k n fl ∧ (fnodeListingSet s' k n).disk = s'.disk := by
  have range := acc.marked.node_range live
  have short : ushort k = k := ushort_nat (by omega)
  have fits := acc.fits k live
  have ends := endOf_file file
  obtain ⟨f, listed, filled, _⟩ := acc.marked.fnodeListing_spec live file
  rw [ends] at filled fits
  have limit : size (s.stores.pool.cell k) ≤ 8344 := by
    simp only [blknumSize] at fits
    omega
  have start := stores_setF s f
  have number : ∀ i < size (s.stores.pool.cell k), fNo f i = blockNo s.stores.pool k i := fun i hi =>
    block_congr filled fits hi
  have tail : (List.range' n (size (s.stores.pool.cell k) - n)).map (fNo f) = (blocksOf s.stores.pool k).drop n := by
    rw [drop_blocksOf]
    refine List.map_congr_left fun i member => number i ?_
    have within := List.mem_range'_1.mp member
    omega
  have count : ((size (s.stores.pool.cell k) : Int) - (n : Nat)).toNat = size (s.stores.pool.cell k) - n := by omega
  have list₀ : FreeList ({ s with f } : State).stores fl := by
    rw [start]
    exact acc.list
  have released : Released { s with f } (freeBlocks { s with f } n (size (s.stores.pool.cell k) - n)) _ fl :=
    freeBlocks_spec list₀ (by omega)
      (by rw [tail]; exact (acc.blocks.nodup k live file).sublist ((List.drop_sublist _ _).append_right _))
      (by rw [tail]; exact fun b member => acc.blocks.area k live file b (List.mem_of_mem_drop member))
  rw [tail] at released
  rw [fstreamFree, short, listed] at run
  dsimp only at run
  rw [count] at run
  generalize freeBlocks { s with f } n (size (s.stores.pool.cell k) - n) = t at released run
  obtain ⟨list, pool, data, _, count, _, calm⟩ := released
  rw [start] at pool data count
  have atF : t.f = f := calm.f
  have entry : entrySize (s.stores.pool.cell k) = blknumSize := if_neg (not_not.mpr file)
  have shrinks : entrySize (s.stores.pool.cell k) * n ≤ endOf (s.stores.pool.cell k) := by
    rw [entry, ends]
    exact Nat.mul_le_mul_left _ shorter
  have markedT : Marked L t.stores.pool := by rw [pool]; exact acc.marked
  have fileT : isdir (t.stores.pool.cell k) = 0 := by rw [pool]; exact file
  have again := fnodeListingSet_twice markedT live fileT (shorter.trans limit) run
    (.of_le (by rw [pool, ← entry]; exact shrinks))
  rw [fnodeListingSet_eq (shorter.trans limit), ← entry] at run
  rw [← pool] at run shrinks
  have spec := markedT.listingSet_stores live run (by omega) (.of_le shrinks) (Or.inr shrinks)
  rw [pool] at spec shrinks
  obtain ⟨_, stores, resized, _, _, marked⟩ := spec
  have sup : s'.stores.sup = t.stores.sup := by rw [stores, Stores.setPool_sup]
  have data' : s'.stores.data = t.stores.data := by rw [stores, Stores.setPool_data]
  refine ⟨⟨marked, resized.isdir_eq, resized.size, ?_, fun j live' ne => resized.same acc.marked live rfl live' ne,
    list.congr sup fun b _ => by rw [data'], fun b avoid => by rw [data', data b avoid], by rw [sup, count],
    fun q free => resized.free_shrink acc.marked live shrinks free, fun c freed => ?_⟩, again⟩
  · have content := resized.content
    rw [entry, atF] at content
    rw [blocksOf, resized.size, blocksOf, ← List.map_take, List.take_range, Nat.min_eq_left shorter]
    refine List.map_congr_left fun i member => ?_
    have before := List.mem_range.mp member
    have bound : blknumSize * n ≤ 33376 := (Nat.mul_le_mul_left _ shorter).trans fits
    exact (block_congr content bound before).trans (number i (before.trans_le shorter))
  · rw [← entry] at freed
    exact (resized.free _).mpr (Or.inr ⟨c, freed, rfl⟩)

/-- `sfs_truncate` to a list that is not longer allocates nothing. -/
theorem truncateTo_shorter (marked : Marked L s.stores.pool) (live : k ∈ L) (file : isdir (s.stores.pool.cell k) = 0)
    (shorter : n ≤ size (s.stores.pool.cell k)) : ∃ f, truncateTo s k n v = trimTo { s with f } k n v := by
  obtain ⟨f, listed, _⟩ := marked.fnodeListing_spec live file
  have none : ((n : Int) - (size (s.stores.pool.cell k) : Nat)).toNat = 0 := by omega
  refine ⟨f, ?_⟩
  simp only [truncateTo, trimTo, listed, none, growBlocks]

namespace Dropped

theorem of_stores (dropped : Dropped L s t k n fl) (same : s'.stores = t.stores) : Dropped L s s' k n fl := by
  obtain ⟨marked, isdir, size, kept, others, list, data, number, free, pages⟩ := dropped
  rw [← same] at marked isdir size kept others list data number free pages
  exact ⟨marked, isdir, size, kept, others, list, data, number, free, pages⟩

/-- The size in bytes is set afterwards. -/
theorem setFsize (dropped : Dropped L s t k n fl) (live : k ∈ L) (file : isdir (s.stores.pool.cell k) = 0)
    (within : blknumSize * n ≤ 33376) (v : Int) : Dropped L s (inodeSetAttrUpc t k v) k n fl ∧
      fsize ((inodeSetAttrUpc t k v).stores.pool.cell k) =
        uint32 (if v > FCONTENT_MAX_SIZE then FCONTENT_MAX_SIZE else v) := by
  obtain ⟨marked, isdir, size, kept, others, list, data, number, free, pages⟩ := dropped
  have fileT := isdir.trans file
  obtain ⟨x, _, stores, header, bytes⟩ := inodeSetAttrUpc_spec marked live fileT v
  obtain ⟨marked', others', ends, content⟩ := marked.header live header
  generalize inodeSetAttrUpc t k v = s' at *
  have pool : s'.stores.pool = t.stores.pool.write k x := by rw [stores, Stores.setPool_pool]
  have sup : s'.stores.sup = t.stores.sup := by rw [stores, Stores.setPool_sup]
  have data' : s'.stores.data = t.stores.data := by rw [stores, Stores.setPool_data]
  have rows : Sfs.size x = Sfs.size (t.stores.pool.cell k) := Bytes.get16_congr (header 4 (by omega)) (header 5 (by omega))
  refine ⟨⟨by rwa [pool], ?_, ?_, ?_, fun j live' ne => ?_, list.congr sup fun b _ => by rw [data'],
    fun b avoid => by rw [data', data b avoid], by rw [sup, number], fun q was => ?_, fun c freed => ?_⟩, ?_⟩
  · rw [pool, Pool.write_cell_self, ← isdir]
    exact header 12 (by omega)
  · rw [pool, Pool.write_cell_self, rows, size]
  · rw [ends, endOf_file fileT, size] at content
    rw [← kept, blocksOf, blocksOf, pool, Pool.write_cell_self, rows, size]
    refine List.map_congr_left fun i member => ?_
    rw [blockNo, blockNo, bytesOf, bytesOf, Pool.write_cell_self]
    exact block_congr content within (List.mem_range.mp member)
  · rw [pool]
    exact (others j live' ne).trans (others' j live' ne)
  · rw [pool, Pool.write_free]
    exact free q was
  · rw [pool, Pool.write_free]
    exact pages c freed
  · rw [pool, Pool.write_cell_self, bytes]

variable (dropped : Dropped L s s' k n fl) (acc : Accounted L s fl) (live : k ∈ L)
  (file : isdir (s.stores.pool.cell k) = 0)

include dropped acc live file

/-- What is left is accounted for as before. -/
theorem accounted (shorter : n ≤ size (s.stores.pool.cell k)) :
    Accounted L s' (((blocksOf s.stores.pool k).drop n).reverse ++ fl) := by
  refine ⟨dropped.marked, fun j live' => ?_, dropped.list,
    acc.blocks.move live file acc.list.area (fun j live' ne file' => ?_) ?_⟩
  · have fits := acc.fits j live'
    by_cases here : j = k
    · subst here
      rw [endOf_file file, blknumSize] at fits
      rw [endOf_file (dropped.isdir_eq.trans file), dropped.size_eq, blknumSize]
      omega
    · rwa [(dropped.same j live' here).cell_eq]
  · have same := dropped.same j live' ne
    rw [same.cell_eq] at file'
    exact ⟨file', same.blocksOf_eq file' (acc.fits j live')⟩
  · rw [dropped.kept, ← List.append_assoc]
    refine List.Perm.append_right fl ?_
    have swap := (List.reverse_perm ((blocksOf s.stores.pool k).drop n)).append_left ((blocksOf s.stores.pool k).take n)
    rwa [List.take_append_drop] at swap

theorem untouched {j : Nat} (live' : j ∈ L) (ne : j ≠ k) : Untouched s s' j := by
  refine (dropped.same j live' ne).untouched (acc.fits j live') fun file' b member => dropped.data b fun gone => ?_
  exact acc.blocks.apart j live' k live file' file ne member (List.mem_of_mem_drop gone)

end Dropped

/-- `sfs_truncate` to a list that is not longer goes over the blocks once and
sets the listing twice. -/
theorem truncateTo_dropped (acc : Accounted L s fl) (live : k ∈ L) (file : isdir (s.stores.pool.cell k) = 0)
    (shorter : n ≤ size (s.stores.pool.cell k)) (run : truncateTo s k n v = s') : Dropped L s s' k n fl ∧
      fsize (s'.stores.pool.cell k) = uint32 (if v > FCONTENT_MAX_SIZE then FCONTENT_MAX_SIZE else v) := by
  have fits := acc.fits k live
  rw [endOf_file file] at fits
  obtain ⟨f, shrinks⟩ := truncateTo_shorter (v := v) acc.marked live file shorter
  rw [shrinks, trimTo] at run
  have start := stores_setF s f
  generalize { s with f } = s₀ at run start
  generalize firstIs : fstreamFree s₀ k n = s₁ at run
  obtain ⟨dropped, again⟩ := fstreamFree_dropped (acc.of_stores start) live (by rw [start]; exact file)
    (by rw [start]; exact shorter) firstIs
  obtain ⟨set, bytes⟩ := (dropped.of_stores (stores_congr again)).setFsize live (by rw [start]; exact file)
    ((Nat.mul_le_mul_left _ shorter).trans fits) v
  rw [run] at set bytes
  obtain ⟨marked, isdir, size, kept, others, list, data, number, free, pages⟩ := set
  rw [start] at isdir kept others list data number free pages
  exact ⟨⟨marked, isdir, size, kept, others, list, data, number, free, pages⟩, bytes⟩

end Sfs
