import Sfs.Lib.Pool
import Sfs.Bitmap

namespace Sfs

/-- The stores that share the disk: the superblock, the inodes with their
bitmap, and the data blocks. Inodes 1 to 3 lie behind the superblock. -/
structure Stores where
  sup : Bytes
  pool : Pool Bytes
  data : Nat → Bytes

namespace Stores

def setSup (v : Stores) (x : Bytes) : Stores := ⟨x, v.pool, v.data⟩

def setPool (v : Stores) (p : Pool Bytes) : Stores := ⟨v.sup, p, v.data⟩

def setData (v : Stores) (b : Nat) (x : Bytes) : Stores := ⟨v.sup, v.pool, Function.update v.data b x⟩

variable (v : Stores) (p : Pool Bytes) (b : Nat) (x : Bytes)

@[simp] theorem setSup_sup : (v.setSup x).sup = x := rfl
@[simp] theorem setSup_pool : (v.setSup x).pool = v.pool := rfl
@[simp] theorem setSup_data : (v.setSup x).data = v.data := rfl
@[simp] theorem setPool_sup : (v.setPool p).sup = v.sup := rfl
@[simp] theorem setPool_pool : (v.setPool p).pool = p := rfl
@[simp] theorem setPool_data : (v.setPool p).data = v.data := rfl
@[simp] theorem setData_sup : (v.setData b x).sup = v.sup := rfl
@[simp] theorem setData_pool : (v.setData b x).pool = v.pool := rfl
@[simp] theorem setData_data : (v.setData b x).data = Function.update v.data b x := rfl

@[simp] theorem setPool_setPool (p' : Pool Bytes) : (v.setPool p).setPool p' = v.setPool p' := rfl

/-- Only the inodes differ from `w`, and then again after a change of them. -/
theorem setPool_rest {v w : Stores} (rest : v = w.setPool v.pool) :
    v.setPool p = w.setPool (v.setPool p).pool := by
  rw [rest]
  rfl

end Stores

def State.stores (s : State) : Stores where
  sup := s.disk.window 0 128
  pool.cell k := if 1 ≤ k ∧ k < 4096 then s.disk.window (128 * k) 128 else Bytes.zero
  pool.free k := decide (k < 4096) && bitAt (s.disk.window 524288 512) k
  data b := if 1025 ≤ b then s.disk.window (512 * b) 512 else Bytes.zero

variable {s : State} {k q b : Nat} {x : Bytes}

theorem Stores.eq_of_parts {v w : Stores} (sup : v.sup = w.sup) (cell : v.pool.cell = w.pool.cell)
    (free : v.pool.free = w.pool.free) (data : v.data = w.data) : v = w := by
  obtain ⟨_, ⟨_, _⟩, _⟩ := v
  obtain ⟨_, ⟨_, _⟩, _⟩ := w
  simp_all

theorem stores_congr {s' : State} (same : s'.disk = s.disk) : s'.stores = s.stores := by
  simp only [State.stores, same]

@[simp] theorem stores_note (call : Call) : (s.note call).stores = s.stores := rfl

@[simp] theorem fault_false : s.fault false = s := by simp [State.fault]

@[simp] theorem stores_fault (bad : Bool) : (s.fault bad).stores = s.stores := rfl

/-- An inode has no bytes past its 128. -/
theorem cell_take (k : Nat) : (s.stores.pool.cell k).take 128 = s.stores.pool.cell k := by
  simp only [State.stores]
  split
  · exact Bytes.take_take
  · funext i
    simp only [Bytes.take]
    split <;> rfl

theorem inodeLoad_congr {s' : State} (same : s'.disk = s.disk) (inum : Int) : inodeLoad s' inum = inodeLoad s inum := by
  simp only [inodeLoad, blockRead, same]

theorem inodeLoad_window (within : k < 65536) : inodeLoad s k = s.disk.window (128 * k) 128 := by
  have positive : ¬ ((k : Int) < 0) := by omega
  have block : (k : Int) / 4 = ((k / 4 : Nat) : Int) := by omega
  have place : ((k : Int) % 4).toNat = k % 4 := by omega
  rw [inodeLoad, if_neg positive, block, place, blockRead_nat s (by omega), INODE_SIZE,
    Bytes.window_window (by omega)]
  congr 1
  omega

theorem inodeLoad_cell (lower : 1 ≤ k) (upper : k < 4096) : inodeLoad s k = s.stores.pool.cell k := by
  rw [inodeLoad_window (by omega)]
  exact (if_pos ⟨lower, upper⟩).symm

/-- The read-modify-write of a block changes one inode of it. -/
theorem inodeDump_eq (within : k < 65536) :
    inodeDump s k x = { s with
      disk := s.disk.copy (128 * k) x 0 128, trace := .inodeDump k :: s.trace } := by
  have positive : ¬ ((k : Int) < 0) := by omega
  have block : (k : Int) / 4 = ((k / 4 : Nat) : Int) := by omega
  have place : ((k : Int) % 4).toNat = k % 4 := by omega
  simp only [inodeDump, positive, if_false, block, place, INODE_SIZE, State.note]
  rw [blockWrite_nat _ _ (by omega), blockRead_nat _ (by omega)]
  congr 1
  funext i
  by_cases inBlock : 512 * (k / 4) ≤ i ∧ i < 512 * (k / 4) + 512
  · rw [Bytes.copy_apply_of_mem inBlock.1 inBlock.2]
    by_cases inInode : 128 * k ≤ i ∧ i < 128 * k + 128
    · rw [Bytes.copy_apply_of_mem (by omega) (by omega), Bytes.copy_apply_of_mem inInode.1 inInode.2]
      congr 1
      omega
    · have below : 0 + (i - 512 * (k / 4)) < 512 := by omega
      have same : 512 * (k / 4) + (0 + (i - 512 * (k / 4))) = i := by omega
      rw [Bytes.copy_apply_of_not_mem (i := i) (by omega), Bytes.copy_apply_of_not_mem (by omega),
        Bytes.window_apply_of_lt below, same]
  · rw [Bytes.copy_apply_of_not_mem (by omega), Bytes.copy_apply_of_not_mem (by omega)]

theorem stores_inodeDump (lower : 1 ≤ k) (upper : k < 4096) :
    (inodeDump s k x).stores = s.stores.setPool (s.stores.pool.write k (x.take 128)) := by
  rw [inodeDump_eq (by omega)]
  apply Stores.eq_of_parts
  · exact Bytes.window_copy_of_disjoint (by omega)
  · funext r
    by_cases same : r = k
    · subst same
      simp only [State.stores, Stores.setPool, Pool.write, Function.update_self, lower, upper, and_self, if_true,
        Bytes.window_copy_self]
      simp only [Bytes.window, Nat.zero_add]
    · simp only [State.stores, Stores.setPool, Pool.write, Function.update_of_ne same]
      rw [Bytes.window_copy_of_disjoint (by omega)]
  · funext r
    simp only [State.stores, Stores.setPool, Pool.write]
    rw [Bytes.window_copy_of_disjoint (by omega)]
  · funext r
    simp only [State.stores, Stores.setPool]
    split
    · exact Bytes.window_copy_of_disjoint (by omega)
    · rfl

theorem stores_blockWrite (lower : 1025 ≤ b) (upper : b < 4194304) :
    (blockWrite s b x).stores = s.stores.setData b (x.take 512) := by
  rw [blockWrite_nat _ _ upper]
  apply Stores.eq_of_parts
  · exact Bytes.window_copy_of_disjoint (by omega)
  · funext r
    simp only [State.stores, Stores.setData]
    split
    · exact Bytes.window_copy_of_disjoint (by omega)
    · rfl
  · funext r
    simp only [State.stores, Stores.setData]
    rw [Bytes.window_copy_of_disjoint (by omega)]
  · funext r
    by_cases same : r = b
    · subst same
      simp only [State.stores, Stores.setData, Function.update_self, lower, if_true, Bytes.window_copy_self]
      simp only [Bytes.window, Nat.zero_add]
    · simp only [State.stores, Stores.setData, Function.update_of_ne same]
      rw [Bytes.window_copy_of_disjoint (by omega)]

theorem blockRead_data (lower : 1025 ≤ b) (upper : b < 4194304) :
    blockRead s b = s.stores.data b := by
  rw [blockRead_nat s upper]
  exact (if_pos lower).symm

theorem stores_superblockWrite :
    (superblockWrite s).stores = s.stores.setSup (s.superBlockBuf.take 128) := by
  have zero : (0 : Int) = ((0 : Nat) : Int) := rfl
  simp only [superblockWrite, zero, SUPERBLOCK_SIZE]
  rw [blockWrite_nat _ _ (by omega), blockRead_nat _ (by omega)]
  dsimp only
  apply Stores.eq_of_parts
  · refine Bytes.take_congr fun i hi => ?_
    simp only [Nat.zero_add, Nat.mul_zero]
    rw [Bytes.copy_apply_of_mem (by omega) (by omega), Bytes.copy_apply_of_mem (by omega) (by omega)]
    simp
  · funext r
    simp only [State.stores, Stores.setSup]
    split
    · refine Bytes.window_congr fun i hi => ?_
      by_cases inBlock : 128 * r + i < 512
      · rw [Bytes.copy_apply_of_mem (by omega) (by omega),
          Bytes.copy_apply_of_not_mem (by omega), Bytes.window_apply_of_lt (by omega)]
        congr 1
        omega
      · exact Bytes.copy_apply_of_not_mem (by omega)
    · rfl
  · funext r
    simp only [State.stores, Stores.setSup]
    rw [Bytes.window_copy_of_disjoint (by omega)]
  · funext r
    simp only [State.stores, Stores.setSup]
    split
    · exact Bytes.window_copy_of_disjoint (by omega)
    · rfl

theorem stores_bitmapWrite (x : Bytes) :
    (blockWrite s INODE_BLK_SIZE x).stores = s.stores.setPool
      ⟨s.stores.pool.cell, fun k => decide (k < 4096) && bitAt (x.take 512) k⟩ := by
  rw [blockWrite_nat _ _ (by decide), INODE_BLK_SIZE]
  apply Stores.eq_of_parts
  · exact Bytes.window_copy_of_disjoint (by omega)
  · funext r
    simp only [State.stores, Stores.setPool]
    split
    · exact Bytes.window_copy_of_disjoint (by omega)
    · rfl
  · funext r
    simp only [State.stores, Stores.setPool]
    rw [show 524288 = 512 * 1024 from rfl, Bytes.window_copy_self]
    simp only [Bytes.window, Nat.zero_add]
  · funext r
    simp only [State.stores, Stores.setPool]
    split
    · exact Bytes.window_copy_of_disjoint (by omega)
    · rfl

theorem stores_free (k : Nat) :
    s.stores.pool.free k = (decide (k < 4096) && bitAt (blockRead s INODE_BLK_SIZE) k) := by
  rw [blockRead_nat s (by decide), INODE_BLK_SIZE]
  rfl

theorem bitAt_take (within : k < 4096) : bitAt (x.take 512) k = bitAt x k := by
  rw [bitAt, bitAt, Bytes.take_apply_of_lt (by omega)]

theorem stores_freeInodePush (lower : 2 ≤ q) (upper : q < 4096) :
    (freeInodePush s q).stores = s.stores.setPool (s.stores.pool.give q) := by
  simp only [freeInodePush, show ¬ q < 2 by omega, if_false, stores_fault, stores_bitmapWrite]
  refine congrArg s.stores.setPool (congrArg (Pool.mk _) (funext fun r => ?_))
  by_cases inRange : r < 4096
  · rw [bitAt_take inRange]
    by_cases same : r = q
    · subst same
      rw [bitAt, Function.update_self, bitSet_or_mask _ (Nat.mod_lt _ (by omega))
        (Nat.mod_lt _ (by omega))]
      simp [upper]
    · simp only [Function.update_of_ne same, stores_free]
      simp only [inRange, decide_true, Bool.true_and]
      by_cases here : r / 8 = q / 8
      · have ne : (r % 8 == q % 8) = false := by rw [beq_eq_false_iff_ne]; omega
        rw [bitAt, bitAt, here, Function.update_self, bitSet_or_mask _ (Nat.mod_lt _ (by omega))
          (Nat.mod_lt _ (by omega)), ne, Bool.or_false]
      · rw [bitAt, bitAt, Function.update_of_ne here]
  · have ne : r ≠ q := by omega
    simp [Function.update_of_ne ne, stores_free, inRange]

/-- A pop either takes the least free number, or finds none and sets the error. -/
theorem freeInodePop_cases (s : State) :
    (∃ q disk, freeInodePop s =
        (q, { s with disk := disk, trace := .freeInodePop q :: s.trace }) ∧ q < 1024 ∧
      s.stores.pool.free q = true ∧ (∀ r < q, s.stores.pool.free r = false) ∧
      (freeInodePop s).2.stores = s.stores.setPool (s.stores.pool.take q)) ∨
    (freeInodePop s =
        (0, { s with errno := -ENOSPC, trace := .freeInodePop 0 :: s.trace }) ∧
      ∀ q < 1024, s.stores.pool.free q = false) := by
  cases found : popByte (blockRead s INODE_BLK_SIZE) 0 (INODE_BLK_SIZE / 8) with
  | none =>
    right
    refine ⟨by simp only [freeInodePop, found, errnoPush, State.note], fun q within => ?_⟩
    rw [stores_free, popByte_none found (by omega) (by simpa [INODE_BLK_SIZE] using within),
      Bool.and_false]
  | some result =>
    left
    obtain ⟨q, b⟩ := result
    obtain ⟨_, upper, set, after, least, _⟩ := popByte_some found
    have within : q < 1024 := by simpa [INODE_BLK_SIZE] using upper
    have run : freeInodePop s = (q, (blockWrite s INODE_BLK_SIZE b).note (.freeInodePop q)) := by
      simp only [freeInodePop, found]
    refine ⟨q, (blockWrite s INODE_BLK_SIZE b).disk, ?_, within, ?_, fun r below => ?_, ?_⟩
    · rw [run, blockWrite_nat _ _ (by decide)]
      rfl
    · rw [stores_free, set]
      simp only [Bool.and_true, decide_eq_true_eq]
      omega
    · rw [stores_free, least r (by omega) below, Bool.and_false]
    · rw [run, stores_note, stores_bitmapWrite]
      refine congrArg s.stores.setPool (congrArg (Pool.mk _) (funext fun r => ?_))
      by_cases inRange : r < 4096
      · rw [bitAt_take inRange, after]
        by_cases same : r = q
        · subst same
          simp
        · simp only [Function.update_of_ne same, stores_free, bne_iff_ne.mpr same,
            Bool.and_true]
      · have ne : r ≠ q := by omega
        simp [Function.update_of_ne ne, stores_free, inRange]

/-- Where no inode is free the number 0 is popped. -/
theorem freeInodePop_none (none : s.stores.pool.freeCount 1024 = 0) :
    ∃ t, freeInodePop s = (0, t) ∧ t.stores = s.stores ∧ t.errno = -ENOSPC := by
  rcases freeInodePop_cases s with ⟨q, _, _, upper, isFree, _⟩ | ⟨popped, _⟩
  · rw [Pool.freeCount_eq_zero.mp none q upper] at isFree
    exact absurd isFree Bool.false_ne_true
  · exact ⟨_, popped, stores_congr rfl, rfl⟩

/-- The inodes once more, slot 0 behind them included. Only the superblock
and the inodes up to number 3 share a block, so what is done to inodes can
be told from these alone. -/
def State.slots (s : State) : Pool Bytes where
  cell k := if k < 4096 then s.disk.window (128 * k) 128 else Bytes.zero
  free := s.stores.pool.free

theorem slots_cell (lower : 1 ≤ k) : s.slots.cell k = s.stores.pool.cell k := by
  by_cases upper : k < 4096
  · exact (if_pos upper).trans (if_pos ⟨lower, upper⟩).symm
  · exact (if_neg upper).trans (if_neg fun both => upper both.2).symm

theorem inodeLoad_slot (within : k < 4096) : inodeLoad s k = s.slots.cell k := by
  rw [inodeLoad_window (by omega)]
  exact (if_pos within).symm

theorem slots_fault (bad : Bool) : (s.fault bad).slots = s.slots := rfl

theorem slots_note (call : Call) : (s.note call).slots = s.slots := rfl

theorem sup_slot : s.stores.sup = s.slots.cell 0 := rfl

theorem bitmap_inodeDump (within : k < 4096) : (inodeDump s k x).stores.pool.free = s.stores.pool.free := by
  rw [inodeDump_eq (by omega)]
  funext r
  simp only [State.stores]
  rw [Bytes.window_copy_of_disjoint (by omega)]

theorem slots_inodeDump (within : k < 4096) : (inodeDump s k x).slots = s.slots.write k (x.take 128) := by
  have free := bitmap_inodeDump (s := s) (x := x) within
  have cell : (inodeDump s k x).slots.cell = (s.slots.write k (x.take 128)).cell := by
    rw [inodeDump_eq (by omega)]
    funext r
    by_cases same : r = k
    · subst same
      rw [Pool.write_cell_self, State.slots]
      simp only [within, if_true, Bytes.window_copy_self]
      simp only [Bytes.window, Nat.zero_add]
    · rw [Pool.write_cell_of_ne _ _ same, State.slots, State.slots]
      simp only
      rw [Bytes.window_copy_of_disjoint (by omega)]
  calc (inodeDump s k x).slots = ⟨(inodeDump s k x).slots.cell, (inodeDump s k x).stores.pool.free⟩ := rfl
    _ = s.slots.write k (x.take 128) := by rw [cell, free]; rfl

theorem data_inodeDump (within : k < 4096) : (inodeDump s k x).stores.data = s.stores.data := by
  rw [inodeDump_eq (by omega)]
  funext r
  simp only [State.stores]
  split
  · exact Bytes.window_copy_of_disjoint (by omega)
  · rfl

/-- A write to the bitmap is one to no slot. -/
theorem slots_bitmapWrite (x : Bytes) : (blockWrite s INODE_BLK_SIZE x).slots =
    ⟨s.slots.cell, (blockWrite s INODE_BLK_SIZE x).stores.pool.free⟩ := by
  have cell : (blockWrite s INODE_BLK_SIZE x).slots.cell = s.slots.cell := by
    rw [blockWrite_nat _ _ (by decide), INODE_BLK_SIZE]
    funext r
    rw [State.slots, State.slots]
    simp only
    split
    · exact Bytes.window_copy_of_disjoint (by omega)
    · rfl
  calc (blockWrite s INODE_BLK_SIZE x).slots =
      ⟨(blockWrite s INODE_BLK_SIZE x).slots.cell, (blockWrite s INODE_BLK_SIZE x).stores.pool.free⟩ := rfl
    _ = _ := by rw [cell]

theorem slots_freeInodePush (lower : 2 ≤ q) (upper : q < 4096) :
    (freeInodePush s q).slots = s.slots.give q ∧ (freeInodePush s q).stores.data = s.stores.data := by
  have stores := stores_freeInodePush (s := s) lower upper
  refine ⟨?_, by rw [stores]; rfl⟩
  have cell : (freeInodePush s q).slots.cell = s.slots.cell := by
    rw [freeInodePush, if_neg (by omega)]
    dsimp only
    rw [slots_fault, slots_bitmapWrite]
  calc (freeInodePush s q).slots = ⟨(freeInodePush s q).slots.cell, (freeInodePush s q).stores.pool.free⟩ := rfl
    _ = s.slots.give q := by rw [cell, stores]; rfl

theorem slots_freeInodePop (s : State) :
    (freeInodePop s).2.slots = ⟨s.slots.cell, (freeInodePop s).2.stores.pool.free⟩ := by
  have cell : (freeInodePop s).2.slots.cell = s.slots.cell := by
    unfold freeInodePop
    split
    · dsimp only
      rw [slots_note, slots_bitmapWrite]
    · rfl
  calc (freeInodePop s).2.slots = ⟨(freeInodePop s).2.slots.cell, (freeInodePop s).2.stores.pool.free⟩ := rfl
    _ = _ := by rw [cell]

end Sfs
