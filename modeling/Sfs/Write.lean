import Sfs.Append
import Sfs.Blocks

namespace Sfs

/-- The first block past the range of a write, at least one past the start. -/
def lastBlock (offset size : Nat) : Nat := (offset + size - 1) / 512 + 1

/-- The number of blocks of a file of `rows` blocks after a write, when `free`
blocks are free. -/
def writeRows (rows free offset size : Nat) : Nat :=
  min (max rows (min (lastBlock offset size) 8344)) (rows + free)

variable {L : Set Nat} {s s' t : State} {p p' : Pool Bytes} {fl fl' taken : List Nat}
  {k n i e rows offset size : Nat} {buf f blkbuf : Bytes}

theorem tdiv_nat (a : Nat) : (a : Int).tdiv BLOCK_SIZE = (a / 512 : Nat) := by
  rw [Int.tdiv_eq_ediv_of_nonneg (by omega), BLOCK_SIZE]
  omega

theorem tmod_nat (a : Nat) : ((a : Int).tmod BLOCK_SIZE).toNat = a % 512 := by
  rw [Int.tmod_eq_emod_of_nonneg (by omega), BLOCK_SIZE]
  omega

theorem lastBlock_eq (small : offset + size < 2147483648) :
    (int32 ((offset : Int) + size - 1)).tdiv BLOCK_SIZE + 1 = lastBlock offset size := by
  rw [int32_of_mem (by omega) (by omega), lastBlock]
  by_cases empty : offset + size = 0
  · have zero : (offset : Int) + size - 1 = -1 := by omega
    have zero' : offset + size - 1 = 0 := by omega
    rw [zero, zero', BLOCK_SIZE]
    rfl
  · have cast : (offset : Int) + size - 1 = (offset + size - 1 : Nat) := by omega
    rw [cast, tdiv_nat]
    omega

theorem stop_eq (small : offset + size < 2147483648) :
    int32 ((offset : Int) + size) = (offset + size : Nat) := by
  rw [int32_of_mem (by omega) (by omega)]
  omega

theorem start_le_lastBlock (offset size : Nat) : offset / 512 ≤ lastBlock offset size := by
  simp only [lastBlock]
  omega

theorem rounds_eq : ((lastBlock offset size : Int) - (offset / 512 : Nat)).toNat =
    lastBlock offset size - offset / 512 := by
  omega

theorem write_noFault : (decide ((lastBlock offset size : Int) < (offset / 512 : Nat)) ||
    decide (((offset + size : Nat) : Int) ≠ (offset : Int) + size) || decide ((offset : Int) < 0) ||
    decide ((size : Int) < 0)) = false := by
  have order := start_le_lastBlock offset size
  simp
  omega

/-- The size in bytes after a write up to `stop`. -/
def newFsize (x : Bytes) (stop : Nat) : Int :=
  if int32 (fsize x) > stop then int32 (fsize x) else stop

theorem setFsize_apply {x : Bytes} {v o : Nat} (out : o < 6 ∨ 12 ≤ o) : setFsize x v o = x o :=
  Bytes.put32_apply_of_ne (by omega)

theorem inodeGetAttrUpc_file (marked : Marked L s.stores.pool) (live : k ∈ L)
    (file : isdir (s.stores.pool.cell k) = 0) :
    (inodeGetAttrUpc s k).2.2 = fsize (s.stores.pool.cell k) := by
  simp only [inodeGetAttrUpc, marked.inodeLoad_eq live, file, ne_eq, not_true_eq_false, if_false]

theorem inodeSetAttrUpc_file (marked : Marked L s.stores.pool) (live : k ∈ L)
    (file : isdir (s.stores.pool.cell k) = 0) (v : Int) :
    inodeSetAttrUpc s k v = inodeDump s k (setFsize (s.stores.pool.cell k)
      (uint32 (if v > FCONTENT_MAX_SIZE then FCONTENT_MAX_SIZE else v))) := by
  simp only [inodeSetAttrUpc, marked.inodeLoad_eq live, file, ne_eq, not_true_eq_false, if_false]

theorem setFsize_fsize {x : Bytes} {v : Nat} (small : v < 4294967296) : fsize (setFsize x v) = v := by
  rw [fsize, setFsize, Bytes.get32_put32_self, Nat.mod_eq_of_lt small]

theorem uint32_lt (v : Int) : uint32 v < 4294967296 := by
  simp only [uint32]
  omega

/-- The inode of file `k` has become `x`, which differs in the size in bytes. -/
structure Sized (s s' : State) (k : Nat) (v : Int) (x : Bytes) : Prop where
  quiet : Quiet s s'
  stores : s'.stores = s.stores.setPool (s.stores.pool.write k x)
  header : ∀ o, o < 6 ∨ 12 ≤ o → x o = s.stores.pool.cell k o
  fsize : fsize x = uint32 (if v > FCONTENT_MAX_SIZE then FCONTENT_MAX_SIZE else v)

theorem inodeSetAttrUpc_spec (marked : Marked L s.stores.pool) (live : k ∈ L)
    (file : isdir (s.stores.pool.cell k) = 0) (v : Int) : ∃ x, Sized s (inodeSetAttrUpc s k v) k v x := by
  have range := marked.node_range live
  rw [inodeSetAttrUpc_file marked live file]
  have small := uint32_lt (if v > FCONTENT_MAX_SIZE then FCONTENT_MAX_SIZE else v)
  generalize valueIs : uint32 (if v > FCONTENT_MAX_SIZE then FCONTENT_MAX_SIZE else v) = value at small
  refine ⟨(setFsize (s.stores.pool.cell k) value).take 128, quiet_inodeDump range.1 range.2,
    stores_inodeDump (by omega) (by omega), fun o out => ?_, ?_⟩
  · rw [Bytes.take, setFsize_apply out]
    exact congrFun (cell_take k) o
  · rw [fsize, Bytes.get32_take (by omega), valueIs]
    exact setFsize_fsize small

/-- `fstream_write` in natural numbers, for a request that does not overflow. -/
theorem fstreamWrite_eq (buf : Bytes) (marked : Marked L s.stores.pool) (live : k ∈ L)
    (file : isdir (s.stores.pool.cell k) = 0) (small : offset + size < 2147483648)
    (listed : fnodeListing s k = (rows, { s with f })) (limit : rows ≤ 8344) :
    ∃ blkbuf : Bytes, (∀ o, blkbuf o = (Bytes.copy (fun o => if o < 512 * (lastBlock offset size - offset / 512) ∧
          offset / 512 + o / 512 < rows
        then blockRead s (fGet { s with f } (offset / 512 + o / 512 : Nat)) (o % 512) else 0)
          (offset % 512) buf 0 size) o) ∧
      fstreamWrite s k buf size offset =
        let written := writeBlocks { s with f } rows (lastBlock offset size) (offset / 512 : Nat) blkbuf 0
          (lastBlock offset size - offset / 512)
        let t := inodeSetAttrUpc written.2 k (newFsize (s.stores.pool.cell k) (offset + size))
        let popped := errnoPop (fnodeListingSet t k (if (rows : Int) > written.1 then rows else written.1))
        (if popped.1 < 0 then popped.1 else size, popped.2) := by
  have range := marked.node_range live
  have short : ushort k = k := ushort_nat (by omega)
  have start : ({ s with f } : State).stores = s.stores := stores_congr rfl
  have attr : (inodeGetAttrUpc { s with f } k).2.2 = fsize (s.stores.pool.cell k) := by
    have markedStart : Marked L ({ s with f } : State).stores.pool := by rwa [start]
    rw [inodeGetAttrUpc_file markedStart live (by rwa [start]), start]
  obtain ⟨state, bytes⟩ := readBlocks_spec (s := { s with f }) (offset / 512)
    (lastBlock offset size - offset / 512) 0 Bytes.zero limit
    (Nat.add_sub_cancel' (start_le_lastBlock offset size))
  refine ⟨(readBlocks { s with f } rows (lastBlock offset size) (offset / 512 : Nat) Bytes.zero 0
    (lastBlock offset size - offset / 512)).1.copy (offset % 512) buf 0 size, fun o => ?_, ?_⟩
  · simp only [Bytes.copy]
    split
    · rfl
    · rw [bytes]
      simp only [Nat.zero_le, Nat.zero_add, Nat.sub_zero, true_and]
      rfl
  · have swap : (size : Int) + offset = offset + size := Int.add_comm ..
    rw [fstreamWrite]
    simp only [short, listed, tdiv_nat, tmod_nat, lastBlock_eq small, rounds_eq, attr, swap, stop_eq small,
      write_noFault, fault_false, state, newFsize, Int.toNat_natCast]
    rfl

theorem fnodeListingSet_eq (within : n ≤ 8344) : fnodeListingSet s k n = listingSet blknumSize s.f s k n := by
  rw [fnodeListingSet, if_neg (by simp only [FENTRY_MAX_SIZE]; omega)]

/-- A file is given the block numbers in the buffer. -/
theorem fnodeListingSet_spec (owned : Owned L s.stores.pool) (live : k ∈ L)
    (file : isdir (s.stores.pool.cell k) = 0) (within : n ≤ 8344) (run : fnodeListingSet s k n = s')
    (pops : Pops s.stores.pool (blknumSize * n) (endOf (s.stores.pool.cell k)) s') :
    Reset L s s' k n s.f ∧ Calm s s' ∧
      ∀ o, 6 ≤ o → o < 12 → s'.stores.pool.cell k o = s.stores.pool.cell k o := by
  have entry : entrySize (s.stores.pool.cell k) = blknumSize := if_neg (not_not.mpr file)
  rw [fnodeListingSet_eq within, ← entry] at run
  rw [← entry] at pops
  exact Reset.of_listingSet owned live run (by simp only [entry, blknumSize]; omega) pops

theorem inodeSetAttrUpc_nlink {v : Int} (marked : Marked L s.stores.pool) (live : k ∈ L)
    (file : isdir (s.stores.pool.cell k) = 0) :
    nlink ((inodeSetAttrUpc s k v).stores.pool.cell k) = nlink (s.stores.pool.cell k) := by
  have range := marked.node_range live
  rw [inodeSetAttrUpc_file marked live file, stores_inodeDump (by omega) (by omega), Stores.setPool_pool,
    Pool.write_cell_self, nlink, Bytes.get16_take (by omega), setFsize, Bytes.get16_put32_of_ne (by omega), nlink]

/-- File `k` has been given its size in bytes and the first `n` entries of `f`. -/
structure Recorded (L : Set Nat) (t s' : State) (k n : Nat) (v : Int) : Prop where
  repaged : Repaged L t.stores.pool s'.stores.pool k n t.f
  fsize : fsize (s'.stores.pool.cell k) = uint32 (if v > FCONTENT_MAX_SIZE then FCONTENT_MAX_SIZE else v)
  rest : s'.stores = t.stores.setPool s'.stores.pool
  errno : s'.errno = t.errno
  ub : s'.ub = t.ub
  f : s'.f = t.f
  synced : Synced t → Synced s'
  traced : Traced t s'

/-- The last two steps of `fstream_write`. -/
theorem record_spec {v : Int} (owned : Owned L t.stores.pool) (live : k ∈ L)
    (file : isdir (t.stores.pool.cell k) = 0) (within : n ≤ 8344)
    (run : fnodeListingSet (inodeSetAttrUpc t k v) k n = s')
    (pops : Pops t.stores.pool (blknumSize * n) (endOf (t.stores.pool.cell k)) s') :
    Recorded L t s' k n v ∧ nlink (s'.stores.pool.cell k) = nlink (t.stores.pool.cell k) := by
  have links : nlink ((inodeSetAttrUpc t k v).stores.pool.cell k) = nlink (t.stores.pool.cell k) :=
    inodeSetAttrUpc_nlink owned.toMarked live file
  obtain ⟨x, quiet, stores, header, bytes⟩ := inodeSetAttrUpc_spec owned.toMarked live file v
  generalize inodeSetAttrUpc t k v = t₁ at run quiet stores links
  obtain ⟨owned₁, _, ends₁, _⟩ := owned.header live header
  have pool₁ : t₁.stores.pool = t.stores.pool.write k x := by rw [stores, Stores.setPool_pool]
  have cell₁ : t₁.stores.pool.cell k = x := by rw [pool₁, Pool.write_cell_self]
  have file₁ : isdir (t₁.stores.pool.cell k) = 0 := by
    rw [cell₁, isdir, header 12 (by omega)]
    exact file
  obtain ⟨reset, calm, kept⟩ := fnodeListingSet_spec (s := t₁) (by rwa [pool₁]) live file₁ within run
    (by rw [cell₁, ends₁]; exact pops.congr (by rw [pool₁, Pool.write_free]))
  have entry : entrySize (t₁.stores.pool.cell k) = blknumSize := if_neg (not_not.mpr file₁)
  rw [fnodeListingSet_eq within, ← entry] at run
  obtain ⟨quiet', _⟩ := (show Owned L t₁.stores.pool by rwa [pool₁]).listingSet_spec live run
    (by simp only [entry, blknumSize]; omega)
    (by rw [entry, cell₁, ends₁]; exact pops.congr (by rw [pool₁, Pool.write_free]))
  have repaged := reset.toRepaged
  rw [pool₁] at repaged
  have repaged := repaged.of_header owned live header
  rw [quiet.f_eq] at repaged
  refine ⟨⟨repaged, ?_, ?_, by rw [reset.errno, quiet.errno_eq], by rw [quiet'.ub_eq, quiet.ub_eq],
    by rw [calm.f, quiet.f_eq], fun synced => reset.synced (quiet.synced synced (by rw [stores, Stores.setPool_sup])),
    quiet.calm.toTraced.trans reset.traced⟩,
    (Bytes.get16_congr (kept 6 (by omega) (by omega)) (kept 7 (by omega) (by omega))).trans links⟩
  · have same : fsize (s'.stores.pool.cell k) = fsize x := by
      rw [← cell₁]
      exact Bytes.get32_congr fun j hj => kept _ (by omega) (by omega)
    rw [same, bytes]
  · rw [reset.rest, stores, Stores.setPool_setPool, Stores.setPool_pool]

/-- The file `k` has been written at `offset`, up to block `e`; the blocks
`taken` have come from the free list. -/
structure Stored (L : Set Nat) (s s' : State) (k : Nat) (buf : Bytes) (offset size e : Nat)
    (fl taken fl' : List Nat) : Prop where
  repaged : ∃ b, Repaged L s.stores.pool s'.stores.pool k (max e (Sfs.size (s.stores.pool.cell k))) b
  split : fl = taken ++ fl'
  blocks : blocksOf s'.stores.pool k = blocksOf s.stores.pool k ++ taken
  list : FreeList s'.stores fl'
  page : ∀ j o, offset / 512 ≤ j → j < e → o < 512 → s'.stores.data (blockNo s'.stores.pool k j) o =
    if offset ≤ 512 * j + o ∧ 512 * j + o < offset + size then buf (512 * j + o - offset)
    else if j < Sfs.size (s.stores.pool.cell k) then s.stores.data (blockNo s.stores.pool k j) o else 0
  frame : ∀ b, (∀ j, offset / 512 ≤ j → j < e → blockNo s'.stores.pool k j ≠ b) →
    s'.stores.data b = s.stores.data b
  fsize : fsize (s'.stores.pool.cell k) =
    min (max (int32 (fsize (s.stores.pool.cell k))) (offset + size : Nat)).toNat FCONTENT_MAX_SIZE
  count : freeBlockSize s.stores.sup = fl.length → freeBlockSize s'.stores.sup = fl'.length
  synced : Synced s → Synced s'
  traced : Traced s s'
  ub : s'.ub = s.ub

theorem pageAt_apply {b₀ j o : Nat} (within : o < 512) :
    pageAt blkbuf b₀ j o = blkbuf (512 * (j - b₀) + o) := Bytes.window_apply_of_lt within

/-- The number stored as the new size. -/
theorem newFsize_stored {x : Bytes} {stop : Nat} :
    uint32 (if newFsize x stop > FCONTENT_MAX_SIZE then (FCONTENT_MAX_SIZE : Int) else newFsize x stop) =
      min (max (int32 (fsize x)) stop).toNat FCONTENT_MAX_SIZE := by
  have value : newFsize x stop = max (int32 (fsize x)) stop := by
    rw [newFsize]
    generalize int32 (fsize x) = v
    split <;> omega
  have limit : FCONTENT_MAX_SIZE = 4272128 := rfl
  have positive : 0 ≤ max (int32 (fsize x)) stop := le_max_of_le_right (Int.natCast_nonneg _)
  rw [value, limit, uint32]
  generalize max (int32 (fsize x)) (stop : Int) = v at *
  split <;> omega

/-- A size that is not negative as an `int` is the number itself. -/
theorem int32_max {a b : Nat} (small : a < 2147483648) : (max (int32 a) b).toNat = max a b := by
  rw [int32_of_mem (by omega) (by omega)]
  omega

theorem newFsize_eq {x : Bytes} (small : fsize x < 2147483648) {stop : Nat} :
    uint32 (if newFsize x stop > FCONTENT_MAX_SIZE then (FCONTENT_MAX_SIZE : Int) else newFsize x stop) =
      min (max (fsize x) stop) FCONTENT_MAX_SIZE := by
  rw [newFsize_stored, int32_max small]

theorem Stored.fsize_eq (stored : Stored L s s' k buf offset size e fl taken fl')
    (small : Sfs.fsize (s.stores.pool.cell k) < 2147483648) :
    Sfs.fsize (s'.stores.pool.cell k) = min (max (Sfs.fsize (s.stores.pool.cell k)) (offset + size)) FCONTENT_MAX_SIZE := by
  rw [stored.fsize, int32_max small]

/-- What the write loop has put into the blocks. -/
theorem image_page {b₀ j o : Nat} (block : Nat → Bytes)
    (image : ∀ o, blkbuf o = (Bytes.copy (fun o => if o < 512 * (lastBlock offset size - offset / 512) ∧
      offset / 512 + o / 512 < rows then block (offset / 512 + o / 512) (o % 512) else 0)
        (offset % 512) buf 0 size) o)
    (start : b₀ = offset / 512) (lower : b₀ ≤ j) (upper : j < lastBlock offset size) (within : o < 512) :
    pageAt blkbuf b₀ j o = if offset ≤ 512 * j + o ∧ 512 * j + o < offset + size then buf (512 * j + o - offset)
      else if j < rows then block j o else 0 := by
  rw [pageAt_apply within, image]
  by_cases inside : offset ≤ 512 * j + o ∧ 512 * j + o < offset + size
  · have place : 0 + (512 * (j - b₀) + o - offset % 512) = 512 * j + o - offset := by omega
    rw [if_pos inside, Bytes.copy_apply_of_mem (by omega) (by omega), place]
  · have index : offset / 512 + (512 * (j - b₀) + o) / 512 = j := by omega
    have rest : (512 * (j - b₀) + o) % 512 = o := by omega
    have before : 512 * (j - b₀) + o < 512 * (lastBlock offset size - offset / 512) := by omega
    rw [if_neg inside, Bytes.copy_apply_of_not_mem (by omega), index, rest]
    simp only [before, true_and]

theorem writeRows_eq (noHole : offset / 512 ≤ rows) (split : fl = taken ++ fl')
    (count : rows + taken.length = max e rows)
    (final : e = max (offset / 512) (min (lastBlock offset size) 8344) ∨
      fl' = [] ∧ e < min (lastBlock offset size) 8344) :
    max e rows = writeRows rows fl.length offset size := by
  have length : fl.length = taken.length + fl'.length := by rw [split, List.length_append]
  rw [writeRows]
  generalize min (lastBlock offset size) 8344 = stop at final ⊢
  rcases final with atEnd | ⟨short, before⟩
  · omega
  · rw [short, List.length_nil] at length
    omega

theorem lt_lastBlock {j : Nat} (stop : e = max (offset / 512) (min (lastBlock offset size) 8344) ∨
    fl' = [] ∧ e < min (lastBlock offset size) 8344) (lower : offset / 512 ≤ j) (upper : j < e) :
    j < lastBlock offset size := by
  have le := Nat.min_le_left (lastBlock offset size) 8344
  generalize min (lastBlock offset size) 8344 = m at *
  omega

theorem writeRows_le {free : Nat} (limit : rows ≤ 8344) : writeRows rows free offset size ≤ 8344 :=
  (Nat.min_le_left _ _).trans (Nat.max_le.mpr ⟨limit, Nat.min_le_right _ _⟩)

theorem fstreamWrite_spec (buf : Bytes) (owned : Owned L s.stores.pool) (live : k ∈ L)
    (file : isdir (s.stores.pool.cell k) = 0) (list : FreeList s.stores fl)
    (blocks : FileBlocks L s.stores.pool fl) (small : offset + size < 2147483648)
    (noHole : offset / 512 ≤ Sfs.size (s.stores.pool.cell k))
    (pops : Pops s.stores.pool
      (blknumSize * writeRows (Sfs.size (s.stores.pool.cell k)) fl.length offset size)
      (endOf (s.stores.pool.cell k)) (fstreamWrite s k buf size offset).2) :
    ∃ e taken fl', Stored L s (fstreamWrite s k buf size offset).2 k buf offset size e fl taken fl' ∧
      nlink ((fstreamWrite s k buf size offset).2.stores.pool.cell k) = nlink (s.stores.pool.cell k) ∧
      (fstreamWrite s k buf size offset).2.errno = 0 ∧
      (e = max (offset / 512) (min (lastBlock offset size) 8344) ∧
          (s.errno = 0 → (fstreamWrite s k buf size offset).1 = size) ∨
        fl' = [] ∧ e < min (lastBlock offset size) 8344 ∧ Sfs.size (s.stores.pool.cell k) ≤ e ∧
          .freeBlockAllocate (-1) ∈ (fstreamWrite s k buf size offset).2.trace ∧
          (fstreamWrite s k buf size offset).1 = -ENOSPC) := by
  have fits := owned.fits k live
  have range := owned.node_range live
  obtain ⟨f, listed, bytes, _⟩ := owned.fnodeListing_spec live file
  rw [endOf_file file] at bytes fits
  generalize rowsIs : Sfs.size (s.stores.pool.cell k) = rows at *
  have limit : rows ≤ 8344 := by
    simp only [blknumSize] at fits
    omega
  have number : ∀ i < rows, fNo f i = blockNo s.stores.pool k i := fun i hi => block_congr bytes fits hi
  have start : ({ s with f } : State).stores = s.stores := stores_congr rfl
  have held : Held f rows fl := rowsIs ▸ blocks.held live file (rowsIs ▸ number)
  obtain ⟨blkbuf, image, run⟩ := fstreamWrite_eq buf owned.toMarked live file small listed limit
  obtain ⟨e, t, taken, fl', loop, lower, written, final⟩ := writeBlocks_spec
    (t := { s with f }) (i := offset / 512) blkbuf (by rwa [start]) held (show rows = max (offset / 512) rows by omega)
    le_rfl (show 0 = 512 * (offset / 512 - offset / 512) by omega)
    (Nat.add_sub_cancel' (start_le_lastBlock offset size))
  have stop : e = max (offset / 512) (min (lastBlock offset size) 8344) ∨
      fl' = [] ∧ e < min (lastBlock offset size) 8344 := final.imp And.left fun short => ⟨short.1, short.2.1⟩
  have rows' := writeRows_eq noHole written.split written.rows stop
  have pool : t.stores.pool = s.stores.pool := by rw [written.pool, start]
  have newRows : (if (rows : Int) > (e : Nat) then (rows : Int) else (e : Nat)) = (max e rows : Nat) := by
    split <;> omega
  have ownedT : Owned L t.stores.pool := by rwa [pool]
  have fileT : isdir (t.stores.pool.cell k) = 0 := by rw [pool]; exact file
  simp only [loop, newRows] at run
  generalize setIs : fnodeListingSet (inodeSetAttrUpc t k _) k (max e rows : Nat) = t₃ at run
  have fitsNew : max e rows ≤ 8344 := rows' ▸ writeRows_le limit
  have trace : (fstreamWrite s k buf size offset).2.trace = t₃.trace := by rw [run]; rfl
  have stores' : (fstreamWrite s k buf size offset).2.stores = t₃.stores := by
    rw [run]
    exact stores_congr rfl
  obtain ⟨recorded, links⟩ := record_spec ownedT live fileT fitsNew setIs (by
    rw [pool, rows']
    exact pops.of_later (.of_eq trace))
  have repaged := recorded.repaged
  rw [pool] at repaged
  have fits' : blknumSize * max e rows ≤ 33376 := by
    simp only [blknumSize]
    omega
  have number' : ∀ j < max e rows, blockNo t₃.stores.pool k j = fNo t.f j := fun j hj =>
    repaged.blockNo_eq file fits' hj
  have data : t₃.stores.data = t.stores.data := by rw [recorded.rest, Stores.setPool_data]
  have sup : t₃.stores.sup = t.stores.sup := by rw [recorded.rest, Stores.setPool_sup]
  refine ⟨e, taken, fl', ⟨⟨t.f, ?_⟩, written.split, ?_, ?_, fun j o from₀ before inPage => ?_,
    fun b avoid => ?_, ?_, fun counted => ?_, fun synced => ?_, ?_, ?_⟩, by rw [stores', links, pool], ?_, ?_⟩
  · rw [stores', rowsIs]
    exact repaged
  · rw [stores', repaged.blocksOf_eq file fits', blocksOf, rowsIs, ← written.rows, List.range_add,
      List.map_append, List.map_map]
    congr 1
    · refine List.map_congr_left fun i hi => ?_
      rw [written.kept i (List.mem_range.mp hi), number i (List.mem_range.mp hi)]
    · refine List.ext_getElem (by simp) fun j hj hj' => ?_
      rw [List.getElem_map, List.getElem_range, ← written.new j hj']
      rfl
  · rw [stores']
    exact written.list.congr sup fun b _ => by rw [data]
  · have below := lt_lastBlock stop from₀ before
    have old : (if j < rows then blockRead s (fGet { s with f } j) o else 0) =
        if j < rows then s.stores.data (blockNo s.stores.pool k j) o else 0 := by
      by_cases inside : j < rows
      · have area := held.area j inside
        have block : fGet { s with f } j = fNo f j := fGet_nat (area.2.trans (by decide))
        rw [if_pos inside, if_pos inside, block, blockRead_data area.1 (area.2.trans (by decide)),
          number j inside]
      · rw [if_neg inside, if_neg inside]
    rw [stores', data, number' j (before.trans_le (Nat.le_max_left _ _)), written.page j from₀ before,
      image_page (fun i => blockRead s (fGet { s with f } i)) image rfl from₀ below inPage, old,
      rowsIs]
  · rw [stores', data, written.frame b fun j from₀ before => ?_, start]
    rw [← number' j (by omega)]
    exact stores' ▸ avoid j from₀ before
  · rw [stores', recorded.fsize, newFsize_stored]
  · rw [stores', sup]
    exact written.count (by rwa [start])
  · have syncedT : Synced t := written.synced (by rw [Synced, start]; exact synced)
    have synced₃ : Synced t₃ := recorded.synced syncedT
    rw [Synced, stores', run]
    exact synced₃
  · have traced : Traced s t := (show Traced s { s with f } from .of_eq rfl).trans written.traced
    exact (traced.trans recorded.traced).trans (.of_eq trace)
  · rw [run]
    exact recorded.ub.trans written.ub
  · rw [run]
    rfl
  · rcases final with ⟨atEnd, errno⟩ | ⟨short, before, beyond, failed, errno⟩
    · refine Or.inl ⟨atEnd, fun clear => ?_⟩
      have none : t₃.errno = 0 := by rw [recorded.errno, errno, clear]
      rw [run]
      simp only [errnoPop, none, Int.lt_irrefl, if_false]
    · refine Or.inr ⟨short, before, beyond, ?_, ?_⟩
      · rw [trace]
        exact recorded.traced.kept _ failed
      · have pending : t₃.errno = -ENOSPC := by rw [recorded.errno, errno]
        rw [run]
        simp only [errnoPop, pending, show -ENOSPC < 0 by decide, if_true]

end Sfs
