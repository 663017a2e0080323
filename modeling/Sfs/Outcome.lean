import Sfs.Live
import Sfs.Overlay
import Sfs.PageCount
import Sfs.Read

namespace Sfs

/-- Byte `i` of the blocks of file `k`, or zero past them. -/
def byteOf (s : State) (k i : Nat) : UInt8 :=
  ((listedFile s k)[i / 512]?).elim 0 fun b => blockRead s b (i % 512)

/-- File `k` has been given the first `need` blocks of the free list `fl`, or
all there are, and the bytes for which it has blocks. -/
structure Wrote (s s' : State) (k : Nat) (buf : Bytes) (offset len need : Nat) (fl : List Nat) : Prop where
  blocks : listedFile s' k = listedFile s k ++ fl.take need
  rest : FreeList s'.stores (fl.drop need)
  count : spareBlocks s' = fl.length - need
  byte : ∀ i, byteOf s' k i =
    if offset ≤ i ∧ i < offset + len ∧ i / 512 < (listedFile s' k).length then buf (i - offset) else byteOf s k i
  sized : fsize (inodeLoad s' k) = min (max (int32 (fsize (inodeLoad s k))) (offset + len : Nat)).toNat FCONTENT_MAX_SIZE
  read : ∀ n i : Nat, i + n < 2147483648 → (fstreamRead s' k n i).1 =
    ⟨(min n (fsize (inodeLoad s' k) - i) : Nat),
      (List.range (min n (fsize (inodeLoad s' k) - i))).map fun j => byteOf s' k (i + j)⟩

variable {L : Set Nat} {s s' s₁ t : State} {p p' : Pool Bytes} {fl fl' taken : List Nat} {k n i e offset len : Nat}
  {buf : Bytes} {path : CPath} {ops : List Op} {disk : Bytes}

theorem Owned.byteOf_eq (owned : Owned L s.stores.pool) (live : k ∈ L) (file : isdir (s.stores.pool.cell k) = 0)
    (area : ∀ b ∈ blocksOf s.stores.pool k, 1025 ≤ b ∧ b < 32768) :
    byteOf s k i = if i / 512 < size (s.stores.pool.cell k) then s.stores.data (blockNo s.stores.pool k (i / 512)) (i % 512)
      else 0 := by
  rw [byteOf, owned.listedFile_eq live file]
  by_cases within : i / 512 < size (s.stores.pool.cell k)
  · have entry := blocksOf_getElem? (p := s.stores.pool) within
    obtain ⟨lower, upper⟩ := area _ (List.mem_of_getElem? entry)
    have load : blockRead s (blockNo s.stores.pool k (i / 512)) = s.stores.data (blockNo s.stores.pool k (i / 512)) :=
      blockRead_data lower (by omega)
    rw [entry, if_pos within, Option.elim_some, load]
  · have none : (blocksOf s.stores.pool k)[i / 512]? = none :=
      List.getElem?_eq_none (by rw [length_blocksOf]; exact not_lt.mp within)
    rw [none, if_neg within, Option.elim_none]

/-- Reading gives the bytes of the blocks, and zeros where there is none. -/
theorem Good.fstreamRead_bytes (good : Good s L fl) (live : k ∈ L) (file : isdir (s.stores.pool.cell k) = 0)
    (small : offset + len < 2147483648) (short : fsize (inodeLoad s k) < 2147483648) :
    (fstreamRead s k len offset).1 = ⟨(min len (fsize (inodeLoad s k) - offset) : Nat),
      (List.range (min len (fsize (inodeLoad s k) - offset))).map fun j => byteOf s k (offset + j)⟩ := by
  rw [good.owned.inodeLoad_eq live] at short ⊢
  have area := good.blocks.area k live file
  have fits := good.owned.fits k live
  obtain ⟨f, listed, bytes, _⟩ := good.owned.fnodeListing_spec live file
  rw [endOf_file file] at bytes fits
  have limit : size (s.stores.pool.cell k) ≤ 8344 := by
    simp only [blknumSize] at fits
    omega
  rw [fstreamRead_eq good.owned live file small short listed limit, ReadResult.mk.injEq]
  refine ⟨rfl, List.map_congr_left fun j _ => ?_⟩
  have index : offset / 512 + (offset % 512 + j) / 512 = (offset + j) / 512 := by omega
  have place : (offset % 512 + j) % 512 = (offset + j) % 512 := by omega
  rw [good.owned.byteOf_eq live file area, index, place]
  by_cases row : (offset + j) / 512 < size (s.stores.pool.cell k)
  · have number : fNo f ((offset + j) / 512) = blockNo s.stores.pool k ((offset + j) / 512) := block_congr bytes fits row
    obtain ⟨lower, upper⟩ := area _ (List.mem_of_getElem? (blocksOf_getElem? row))
    have got : fGet { s with f } ((offset + j) / 512 : Nat) = blockNo s.stores.pool k ((offset + j) / 512) := by
      rw [← number] at upper ⊢
      exact fGet_nat (upper.trans (by decide))
    rw [if_pos row, if_pos row, got, blockRead_data lower (upper.trans (by decide))]
  · rw [if_neg row, if_neg row]

/-- After a failed write one inode is taken, if there is one. -/
theorem afterWrite_spare {r : Int} (list : FreeList t.stores []) (negative : r < 0) :
    spareInodes (afterWrite (r, t)).2 = spareInodes t - 1 := by
  have popped : (freeInodePop t).2.stores.pool.freeCount 1024 = t.stores.pool.freeCount 1024 - 1 ∧
      FreeList (freeInodePop t).2.stores [] := by
    rcases freeInodePop_cases t with ⟨q, disk, _, upper, free, _, stores⟩ | ⟨run, none⟩
    · rw [stores, Stores.setPool_pool]
      refine ⟨?_, list.congr (Stores.setPool_sup ..) fun _ _ => by rw [Stores.setPool_data]⟩
      have one := Pool.take_freeCount free upper
      omega
    · have same : (freeInodePop t).2.stores = t.stores := by
        rw [run]
        exact stores_congr rfl
      have empty : t.stores.pool.freeCount 1024 = 0 := by
        refine Finset.card_eq_zero.mpr (Finset.filter_eq_empty_iff.mpr fun q member => ?_)
        rw [none q (Finset.mem_range.mp member)]
        exact Bool.false_ne_true
      rw [same, empty]
      exact ⟨rfl, list⟩
  obtain ⟨count, list₁⟩ := popped
  rw [afterWrite, if_pos negative]
  have stores₁ := stores_errnoPop (freeInodePop t).2
  generalize (errnoPop (freeInodePop t).2).2 = t₁ at *
  rw [← stores₁] at list₁ count
  obtain ⟨t₂, run, stores₂, _⟩ := freeBlockPop_nil list₁
  have stores₃ := stores_errnoPop t₂
  simp only [run, spareInodes]
  rw [stores₃, stores₂, count]

theorem sized_lt {a : Nat} : min a FCONTENT_MAX_SIZE < 2147483648 := (Nat.min_le_right _ _).trans_lt (by decide)

/-- How many of the free blocks a write that runs has taken. -/
theorem taken_eq (split : fl = taken ++ fl') (noHole : offset / 512 ≤ n) (rows : max e n = n + taken.length)
    (stop : e = max (offset / 512) (min (lastBlock offset len) 8344) ∨
      fl' = [] ∧ e < min (lastBlock offset len) 8344 ∧ n ≤ e) (limit : max e n ≤ 8344) :
    taken = fl.take (min (lastBlock offset len) 8344 - n) ∧ fl' = fl.drop (min (lastBlock offset len) 8344 - n) := by
  subst split
  generalize min (lastBlock offset len) 8344 = last at *
  rcases stop with full | ⟨rfl, before, past⟩
  · have count : taken.length = last - n := by omega
    rw [← count, List.take_left, List.drop_left]
    exact ⟨rfl, rfl⟩
  · rw [List.append_nil, List.take_of_length_le (by omega), List.drop_eq_nil_of_le (by omega)]
    exact ⟨rfl, rfl⟩

namespace Stored

variable (stored : Stored L s t k buf offset len e fl taken fl') (good : Good s L fl) (after : Good t L fl') (live : k ∈ L)
  (file : isdir (s.stores.pool.cell k) = 0) (noHole : offset / 512 ≤ size (s.stores.pool.cell k))
  (stop : e = max (offset / 512) (min (lastBlock offset len) 8344) ∨
    fl' = [] ∧ e < min (lastBlock offset len) 8344 ∧ size (s.stores.pool.cell k) ≤ e)

include stored good after live file noHole stop

theorem byteOf_eq : byteOf t k i = if offset ≤ i ∧ i < offset + len ∧ i / 512 < (blocksOf t.stores.pool k).length
    then buf (i - offset) else byteOf s k i := by
  obtain ⟨g, repaged⟩ := stored.repaged
  have rows := repaged.resized.size
  have file' : isdir (t.stores.pool.cell k) = 0 := repaged.resized.isdir_eq.trans file
  have limit := after.owned.fits k live
  rw [endOf_file file', blknumSize] at limit
  have split : 512 * (i / 512) + i % 512 = i := by omega
  rw [after.owned.byteOf_eq live file' (after.blocks.area k live file'), good.owned.byteOf_eq live file
    (good.blocks.area k live file), length_blocksOf]
  by_cases within : i / 512 < size (t.stores.pool.cell k)
  · simp only [within, if_true, and_true]
    by_cases page : offset / 512 ≤ i / 512 ∧ i / 512 < e
    · rw [stored.page _ _ page.1 page.2 (by omega), split]
    · have outside : ¬ (offset ≤ i ∧ i < offset + len) := by
        rintro ⟨lower, upper⟩
        have last : i / 512 < lastBlock offset len := by
          rw [lastBlock]
          omega
        generalize lastBlock offset len = m at stop last
        generalize size (s.stores.pool.cell k) = rows₀ at *
        generalize size (t.stores.pool.cell k) = rows₁ at *
        omega
      have apart : ∀ j, offset / 512 ≤ j → j < e → blockNo t.stores.pool k j ≠ blockNo t.stores.pool k (i / 512) := by
        intro j lower upper same
        have nodup := (after.blocks.nodup k live file').of_append_left
        have equal := List.inj_on_of_nodup_map nodup (List.mem_range.mpr (by omega)) (List.mem_range.mpr within) same
        omega
      have before : i / 512 < size (s.stores.pool.cell k) := by omega
      rw [if_neg outside, if_pos before, stored.frame _ apart, stored.number_old before]
  · have before : ¬ i / 512 < size (s.stores.pool.cell k) := by omega
    simp only [within, before, if_false, and_false]

/-- What the loop and the steps after it have done, in terms of what can be observed. -/
theorem wrote : Wrote s t k buf offset len (min (lastBlock offset len) 8344 - size (s.stores.pool.cell k)) fl ∧
    spareInodes t = spareInodes s - growNeed s k (listedFile t k).length := by
  obtain ⟨g, repaged⟩ := stored.repaged
  have rows := repaged.resized.size
  have file' : isdir (t.stores.pool.cell k) = 0 := repaged.resized.isdir_eq.trans file
  have limit := after.owned.fits k live
  rw [endOf_file file', blknumSize] at limit
  have listed := good.owned.listedFile_eq live file
  have listed' := after.owned.listedFile_eq live file'
  have length := congrArg List.length stored.blocks
  rw [List.length_append, length_blocksOf, length_blocksOf] at length
  obtain ⟨takenIs, restIs⟩ := taken_eq stored.split noHole (rows.symm.trans length) stop (by omega)
  have sized : Sfs.fsize (inodeLoad t k) =
      min (max (int32 (Sfs.fsize (inodeLoad s k))) (offset + len : Nat)).toNat FCONTENT_MAX_SIZE := by
    rw [good.owned.inodeLoad_eq live, after.owned.inodeLoad_eq live]
    exact stored.fsize
  refine ⟨⟨?_, ?_, ?_, fun i => ?_, sized, fun n i small =>
    after.fstreamRead_bytes live file' small (sized ▸ sized_lt)⟩, ?_⟩
  · rw [listed, listed', ← takenIs, stored.blocks]
  · rw [← restIs]
    exact stored.list
  · rw [spareBlocks, after.count, Int.toNat_natCast, restIs, List.length_drop]
  · rw [stored.byteOf_eq good after live file noHole stop, listed']
  · rw [listed', length_blocksOf]
    have longer : size (s.stores.pool.cell k) ≤ size (t.stores.pool.cell k) := by omega
    have ends : endOf (s.stores.pool.cell k) = blknumSize * size (s.stores.pool.cell k) := endOf_file file
    have resized := repaged.resized
    rw [ends, entrySize, if_neg (not_not.mpr file), ← rows] at resized
    exact Nat.eq_sub_of_add_eq (resized.grown_count good.owned.toHolding live ends (Nat.mul_le_mul_left _ longer))

end Stored

/-- What the error branch leaves of a file. -/
theorem Spilled.seen (spilled : Spilled t s') (after : Good t L fl) (live : k ∈ L)
    (file : isdir (t.stores.pool.cell k) = 0) : listedFile s' k = listedFile t k ∧ inodeLoad s' k = inodeLoad t k ∧
      ∀ i, byteOf s' k i = byteOf t k i := by
  have good := spilled.good after
  have cell := spilled.cell_eq
  have file' : isdir (s'.stores.pool.cell k) = 0 := by rw [cell, file]
  have numbers : ∀ j, blockNo s'.stores.pool k j = blockNo t.stores.pool k j := fun j => by
    rw [blockNo, blockNo, bytesOf, bytesOf, cell]
  refine ⟨?_, ?_, fun i => ?_⟩
  · rw [good.owned.listedFile_eq live file', after.owned.listedFile_eq live file, blocksOf, blocksOf, cell]
    exact List.map_congr_left fun j _ => numbers j
  · rw [good.owned.inodeLoad_eq live, after.owned.inodeLoad_eq live, cell]
  · rw [good.owned.byteOf_eq live file' (good.blocks.area k live file'),
      after.owned.byteOf_eq live file (after.blocks.area k live file), numbers, cell, spilled.data_eq]

theorem Wrote.spilled {need : Nat} (wrote : Wrote s t k buf offset len need fl) (spilled : Spilled t s') (after : Good t L fl')
    (live : k ∈ L) (file : isdir (t.stores.pool.cell k) = 0) : Wrote s s' k buf offset len need fl := by
  obtain ⟨listed, loaded, bytes⟩ := spilled.seen after live file
  obtain ⟨blocks, rest, count, byte, sized, _⟩ := wrote
  have file' : isdir (s'.stores.pool.cell k) = 0 := by rw [spilled.cell_eq, file]
  have sized' : fsize (inodeLoad s' k) = min (max (int32 (fsize (inodeLoad s k))) (offset + len : Nat)).toNat
      FCONTENT_MAX_SIZE := by rw [loaded, sized]
  refine ⟨listed.trans blocks, rest.congr spilled.sup_eq fun b _ => by rw [spilled.data_eq], ?_, fun i => ?_, sized',
    fun n i small => (spilled.good after).fstreamRead_bytes live file' small (sized' ▸ sized_lt)⟩
  · rw [spareBlocks, spilled.sup_eq]
    exact count
  · rw [bytes, listed, byte]

/-- A state that has only been looked at shows the same of a file. -/
theorem Glance.seen (glance : Glance s s₁) (good : Good s L fl) (live : k ∈ L) (file : isdir (s.stores.pool.cell k) = 0) :
    listedFile s₁ k = listedFile s k ∧ inodeLoad s₁ k = inodeLoad s k ∧ ∀ i, byteOf s₁ k i = byteOf s k i := by
  have good₁ := good.glance glance
  have same := glance.stores_eq
  have file₁ : isdir (s₁.stores.pool.cell k) = 0 := by rw [same, file]
  refine ⟨?_, ?_, fun i => ?_⟩
  · rw [good₁.owned.listedFile_eq live file₁, good.owned.listedFile_eq live file, same]
  · rw [good₁.owned.inodeLoad_eq live, good.owned.inodeLoad_eq live, same]
  · rw [good₁.owned.byteOf_eq live file₁ (good₁.blocks.area k live file₁),
      good.owned.byteOf_eq live file (good.blocks.area k live file), same]

theorem Wrote.of_glance {need : Nat} (wrote : Wrote s₁ t k buf offset len need fl) (glance : Glance s s₁) (good : Good s L fl)
    (live : k ∈ L) (file : isdir (s.stores.pool.cell k) = 0) : Wrote s t k buf offset len need fl := by
  obtain ⟨listed, loaded, bytes⟩ := glance.seen good live file
  obtain ⟨blocks, rest, count, byte, sized, read⟩ := wrote
  rw [listed] at blocks
  rw [loaded] at sized
  exact ⟨blocks, rest, count, fun i => by rw [byte, bytes], sized, read⟩

/-- What `sfs_write` returns and does when the path leads to file `k`. -/
theorem Good.sfsWrite_report {size : Nat} (good : Good s L fl) (permit : Permit s (.write path buf size offset))
    (found : (pathToInum s path).1.inum = k) :
    let o := (int32 offset).toNat
    let l := (int32 size).toNat
    let need := min (lastBlock o l) 8344 - (listedFile s k).length
    let written := sfsWrite s path buf size offset
    written.1 = (if need ≤ fl.length then (l : Int) else -ENOSPC) ∧ Wrote s written.2 k buf o l need fl ∧
      spareInodes written.2 = spareInodes s - growNeed s k (listedFile written.2 k).length -
        (if need ≤ fl.length then 0 else 1) := by
  intro o l need written
  have atOffset : (int32 offset).toNat = o := rfl
  have atSize : (int32 size).toNat = l := rfl
  have needIs : need = min (lastBlock o l) 8344 - (listedFile s k).length := rfl
  have result : sfsWrite s path buf size offset = written := rfl
  clear_value need written o l
  have grant := fun positive => permit.write_fits found positive
  obtain ⟨q, proper, notDir⟩ := permit.vfs
  obtain ⟨cs, m, c, located, target, file⟩ := good.located_file proper notDir
  have found : toInum (child s.stores.pool m c) = k := by rwa [target] at found
  cases leads : child s.stores.pool m c with
  | none =>
    rw [leads, toInum_none] at found
    omega
  | some j =>
    rw [leads, toInum, Int.natCast_inj] at found
    subst found
    obtain ⟨live, lower, _⟩ := good.child_pos located.live leads
    replace file := file j leads
    have listed := good.owned.listedFile_eq live file
    have rows : (listedFile s j).length = Sfs.size (s.stores.pool.cell j) := by rw [listed, length_blocksOf]
    obtain ⟨fits, room⟩ := grant (by omega)
    have noHole := fits.2.2.2
    obtain ⟨s₁, t, e, taken, fl', glance, stored, _, errno, final⟩ := sfsWrite_steps good located.live leads file
      (by rw [target, leads, toInum]) size offset fits room
    rw [atOffset, atSize] at stored final
    have noHole : o / 512 ≤ Sfs.size (s.stores.pool.cell j) := atOffset ▸ noHole
    have same := glance.stores_eq
    have good₁ := good.glance glance
    have file₁ : isdir (s₁.stores.pool.cell j) = 0 := by rw [same, file]
    have after : Good t L fl' := stored.fileStep.good good₁ live file₁ errno
    obtain ⟨g, repaged⟩ := stored.repaged
    have file₂ : isdir (t.stores.pool.cell j) = 0 := repaged.resized.isdir_eq.trans file₁
    have final₁ : e = max (o / 512) (min (lastBlock o l) 8344) ∨
        fl' = [] ∧ e < min (lastBlock o l) 8344 ∧ Sfs.size (s.stores.pool.cell j) ≤ e :=
      final.imp And.left fun short => ⟨short.1, short.2.1, short.2.2.1⟩
    obtain ⟨wrote, spare⟩ := stored.wrote good₁ after live file₁ (by rw [same]; exact noHole) (by rw [same]; exact final₁)
    replace wrote := wrote.of_glance glance good live file
    have count : growNeed s₁ j (listedFile t j).length = growNeed s j (listedFile t j).length := by
      rw [growNeed, growNeed, same]
    rw [count, spareInodes, spareInodes, same] at spare
    rw [same, ← rows, ← needIs] at wrote
    have length := congrArg List.length wrote.blocks
    rw [List.length_append, List.length_take] at length
    have size' : (listedFile t j).length = max e (listedFile s j).length := by
      rw [after.owned.listedFile_eq live file₂, length_blocksOf, repaged.resized.size, same, ← rows]
    rw [← rows, result] at final
    rw [← rows] at noHole
    have limit := after.owned.fits j live
    rw [endOf_file file₂, blknumSize, ← length_blocksOf, ← after.owned.listedFile_eq live file₂] at limit
    generalize min (lastBlock o l) 8344 = last at *
    rcases final with ⟨atEnd, rfl⟩ | ⟨rfl, before, past, _, rfl⟩
    · have enough : need ≤ fl.length := by omega
      rw [if_pos enough, if_pos enough, Nat.sub_zero]
      exact ⟨rfl, wrote, spare⟩
    · have lack : ¬ need ≤ fl.length := by
        have all : taken = fl := by rw [stored.split, List.append_nil]
        omega
      obtain ⟨kept, spilled⟩ := afterWrite_short (r := -ENOSPC) stored.list (by decide)
      have less := afterWrite_spare (r := -ENOSPC) stored.list (by decide)
      rw [if_neg lack, if_neg lack]
      generalize afterWrite (-ENOSPC, t) = ended at *
      obtain ⟨listed', _⟩ := spilled.seen after live file₂
      refine ⟨kept, wrote.spilled spilled after live file₂, ?_⟩
      rw [listed', less, spareInodes, spare, spareInodes]

/-- A write stores the bytes for which it gets blocks, and records the whole
of them. Where blocks are missing it takes all that are free and one inode. -/
theorem run_writes {size : Nat} (run : Run step Permit (sfsInit disk) ops s) (permit : Permit s (.write path buf size offset))
    (found : (pathToInum s path).1.inum = k) :
    let o := (int32 offset).toNat
    let l := (int32 size).toNat
    let need := min (lastBlock o l) 8344 - (listedFile s k).length
    let written := sfsWrite s path buf size offset
    ∃ fl, FreeList s.stores fl ∧ written.1 = (if need ≤ fl.length then (l : Int) else -ENOSPC) ∧
      Wrote s written.2 k buf o l need fl ∧
      spareInodes written.2 = spareInodes s - growNeed s k (listedFile written.2 k).length -
        (if need ≤ fl.length then 0 else 1) := by
  obtain ⟨L, fl, good⟩ := run_good (sfsInit_initial disk).good run
  exact ⟨fl, good.list, good.sfsWrite_report permit found⟩

/-- 600 bytes are written to the file `/a`, which gets its first blocks. -/
theorem run_writes_first : ∃ k, (pathToInum firstState (render [[97]])).1.inum = (k : Nat) ∧
    let written := sfsWrite firstState (render [[97]]) Bytes.zero 600 0
    let need := min (lastBlock (int32 (0 : Nat)).toNat (int32 (600 : Nat)).toNat) 8344 - (listedFile firstState k).length
    ∃ fl, FreeList firstState.stores fl ∧ written.1 = (if need ≤ fl.length then ((int32 (600 : Nat)).toNat : Int) else -ENOSPC) ∧
      Wrote firstState written.2 k Bytes.zero (int32 (0 : Nat)).toNat (int32 (600 : Nat)).toNat need fl ∧
      spareInodes written.2 = spareInodes firstState - growNeed firstState k (listedFile written.2 k).length -
        (if need ≤ fl.length then 0 else 1) := by
  obtain ⟨k, first⟩ := firstState_firstFile
  have made : Run step Permit (sfsInit Bytes.zero) [.create (render [[97]]) Bytes.zero] firstState :=
    .next .nil ready_first.permit
  exact ⟨k, first.found, run_writes made (first.ready_write Bytes.zero).permit first.found⟩

end Sfs
