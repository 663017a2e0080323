import Sfs.Allot
import Sfs.Stack

namespace Sfs

/-- The calls on the three stores of the disk. -/
inductive StoreOp
  | inodeDump (k : Nat) (x : Bytes)
  | inodePop
  | inodePush (k : Nat)
  | blockPop
  | blockAllocate (buff : Option Bytes)
  | blockPush (b : Nat)

namespace StoreOp

def run (s : State) : StoreOp → State
  | inodeDump k x => Sfs.inodeDump s k x
  | inodePop => (freeInodePop s).2
  | inodePush k => freeInodePush s k
  | blockPop => (freeBlockPop s).2
  | blockAllocate buff => (freeBlockAllocate s buff).2
  | blockPush b => freeBlockPush s b

/-- Numbers are in range, and a block is not released while it is free. -/
def Allowed (s : State) : StoreOp → Prop
  | inodeDump k _ => 1 ≤ k ∧ k < 4096
  | inodePush k => 2 ≤ k ∧ k < 4096
  | blockPush b => 1025 ≤ b ∧ b < MAX_BLOCK_NUM ∧ ∀ fl, FreeList s.stores fl → b ∉ fl
  | inodePop | blockPop | blockAllocate _ => True

/-- The inodes depend on the dumps. -/
def onInodes (cell : Nat → Bytes) : StoreOp → Nat → Bytes
  | inodeDump k x => Function.update cell k (x.take INODE_SIZE)
  | inodePop | inodePush _ | blockPop | blockAllocate _ | blockPush _ => cell

/-- The bitmap without its least number. -/
def popBitmap (free : Nat → Bool) : Nat → Bool :=
  ((List.range INODE_BLK_SIZE).find? free).elim free fun k => Function.update free k false

/-- The bitmap depends on the calls that take and release inodes. -/
def onBitmap (free : Nat → Bool) : StoreOp → Nat → Bool
  | inodePop => popBitmap free
  | inodePush k => Function.update free k true
  | inodeDump _ _ | blockPop | blockAllocate _ | blockPush _ => free

/-- The list of free blocks depends on the calls that take and release blocks. -/
def onBlocks (fl : List Nat) : StoreOp → List Nat
  | blockPop | blockAllocate _ => fl.tail
  | blockPush b => b :: fl
  | inodeDump _ _ | inodePop | inodePush _ => fl

end StoreOp

/-- The superblock is that of the list `fl`; the bytes behind its two fields are those of `sup`. -/
structure SupOf (sup : Bytes) (v : Stores) (fl : List Nat) : Prop where
  list : FreeList v fl
  count : freeBlockSize v.sup = fl.length
  rest : ∀ o, 8 ≤ o → o < 128 → v.sup o = sup o

variable {s s' : State} {sup : Bytes} {free free' : Nat → Bool} {fl : List Nat} {b j k : Nat} {ops : List StoreOp}
  {op : StoreOp} {disk : Bytes} {buff : Option Bytes}

/-- The fields of the superblock are its first 8 bytes. -/
theorem supWith_rest {m : Bytes} {head count : Int} {o : Nat} (past : 8 ≤ o) (within : o < 128) :
    (supWith m head count).take 128 o = m o := by
  rw [Bytes.take_apply_of_lt within, supWith, putInt, putInt, Bytes.put32_apply_of_ne (by omega),
    Bytes.put32_apply_of_ne (by omega)]

/-- The calls of the free list leave the bytes behind the fields as they are. -/
theorem freeBlockUnlink_rest {o : Nat} (lower : 1025 ≤ b) (upper : b < 32768) (past : 8 ≤ o) (within : o < 128) :
    (freeBlockUnlink { s with blockBuf := blockRead s 0, superBlockBuf := s.stores.sup } b).stores.sup o =
      s.stores.sup o := by
  obtain ⟨stores, _⟩ := freeBlockUnlink_spec
    (s := { s with blockBuf := blockRead s 0, superBlockBuf := s.stores.sup }) lower upper
  rw [stores, Stores.setSup_sup, supWith_rest past within]

theorem freeBlockPop_rest {o : Nat} (list : FreeList s.stores (b :: fl)) (past : 8 ≤ o) (within : o < 128) :
    (freeBlockPop s).2.stores.sup o = s.stores.sup o := by
  obtain ⟨head, lower, upper⟩ := list.head_pos
  have positive : (b : Int) > 0 := by omega
  simp only [freeBlockPop, superblockRead_eq, head, positive, if_true, stores_note]
  exact freeBlockUnlink_rest lower upper past within

theorem freeBlockAllocate_rest {o : Nat} (buff : Option Bytes) (list : FreeList s.stores (b :: fl)) (past : 8 ≤ o)
    (within : o < 128) : (freeBlockAllocate s buff).2.stores.sup o = s.stores.sup o := by
  obtain ⟨head, lower, upper⟩ := list.head_pos
  have positive : (b : Int) > 0 := by omega
  simp only [freeBlockAllocate, superblockRead_eq, head, positive, if_true]
  have unlinked := freeBlockUnlink_rest (s := s) lower upper past within
  have written := stores_blockWrite (s := freeBlockUnlink
    { s with blockBuf := blockRead s 0, superBlockBuf := s.stores.sup } b) (b := b)
    (x := buff.getD emptyBlk) lower (by omega)
  rw [stores_note, written, Stores.setData_sup, unlinked]

theorem freeBlockPush_rest {o : Nat} (lower : 1025 ≤ b) (upper : b < 32768) (past : 8 ≤ o) (within : o < 128) :
    (freeBlockPush s b).stores.sup o = s.stores.sup o := by
  rw [stores_freeBlockPush lower (by omega), Stores.setSup_sup, supWith_rest past within]

namespace SupOf

variable (shared : SupOf sup s.stores fl)

include shared

theorem length_le : fl.length ≤ 32768 := shared.list.length_le

theorem of_same (same : s'.stores.sup = s.stores.sup) (data : s'.stores.data = s.stores.data) :
    SupOf sup s'.stores fl :=
  ⟨shared.list.congr same fun b _ => by rw [data], by rw [same, shared.count], by rw [same]; exact shared.rest⟩

/-- A block has been taken off the list. -/
theorem tail (full : fl = b :: fl.tail) (unlinked : Unlinked s.stores s'.stores fl.tail)
    (rest : ∀ o, 8 ≤ o → o < 128 → s'.stores.sup o = s.stores.sup o) : SupOf sup s'.stores fl.tail := by
  have bound := shared.length_le
  have count := unlinked.count
  have length : fl.length = fl.tail.length + 1 := by rw [full]; rfl
  rw [shared.count, int32_of_mem (by omega) (by omega)] at count
  exact ⟨unlinked.list, by rw [count]; omega, fun o past within => by rw [rest o past within, shared.rest o past within]⟩

theorem blockPop : SupOf sup (freeBlockPop s).2.stores fl.tail ∧ (freeBlockPop s).2.stores.pool = s.stores.pool := by
  cases fl with
  | nil =>
    obtain ⟨s', run, stores, _⟩ := freeBlockPop_nil shared.list
    rw [run, stores]
    exact ⟨shared, rfl⟩
  | cons b fl =>
    obtain ⟨s', run, unlinked, _⟩ := freeBlockPop_cons shared.list
    have rest := fun o past within => freeBlockPop_rest (o := o) shared.list past within
    rw [run] at rest ⊢
    exact ⟨shared.tail rfl unlinked rest, unlinked.pool⟩

theorem blockAllocate (buff : Option Bytes) : SupOf sup (freeBlockAllocate s buff).2.stores fl.tail ∧
    (freeBlockAllocate s buff).2.stores.pool = s.stores.pool := by
  cases fl with
  | nil =>
    obtain ⟨s', run, stores, _⟩ := freeBlockAllocate_nil buff shared.list
    rw [run, stores]
    exact ⟨shared, rfl⟩
  | cons b fl =>
    obtain ⟨s', run, unlinked, _⟩ := freeBlockAllocate_cons buff shared.list
    have rest := fun o past within => freeBlockAllocate_rest (o := o) buff shared.list past within
    rw [run] at rest ⊢
    exact ⟨shared.tail rfl unlinked rest, unlinked.pool⟩

theorem blockPush (lower : 1025 ≤ b) (upper : b < 32768) (off : b ∉ fl) :
    SupOf sup (freeBlockPush s b).stores (b :: fl) ∧ (freeBlockPush s b).stores.pool = s.stores.pool := by
  obtain ⟨list, pool, _, count, _⟩ := freeBlockPush_spec shared.list lower upper off
  have bound := list.length_le
  rw [List.length_cons] at bound
  rw [shared.count, int32_of_mem (by omega) (by omega)] at count
  refine ⟨⟨list, by rw [count, List.length_cons]; omega, fun o past within => ?_⟩, pool⟩
  rw [freeBlockPush_rest lower upper past within, shared.rest o past within]

end SupOf

/-- The three stores hold what the calls on each of them have made of it. -/
structure Apart (sup : Bytes) (s : State) (cell : Nat → Bytes) (free : Nat → Bool) (fl : List Nat) : Prop where
  inodes : ∀ k, 1 ≤ k → k < 4096 → s.stores.pool.cell k = cell k
  bitmap : ∀ k < 4096, bitmap s k = free k
  blocks : SupOf sup s.stores fl

namespace Apart

variable {cell : Nat → Bytes} (apart : Apart sup s cell free fl)

include apart

theorem of_pool (pool : s'.stores.pool = s.stores.pool) {fl' : List Nat} (blocks : SupOf sup s'.stores fl') :
    Apart sup s' cell free fl' where
  inodes := by
    rw [pool]
    exact apart.inodes
  bitmap k within := by rw [bitmap_eq within, pool, ← bitmap_eq within, apart.bitmap k within]
  blocks := blocks

/-- The search of the bitmap in the block and in its image agree. -/
theorem inodePop : Apart sup (freeInodePop s).2 cell (StoreOp.popBitmap free) fl := by
  have bound : INODE_BLK_SIZE = 1024 := rfl
  rcases freeInodePop_cases s with ⟨q, disk, run, upper, isFree, least, stores⟩ | ⟨run, empty⟩
  · have found : (List.range INODE_BLK_SIZE).find? free = some q := by
      rw [List.find?_range_eq_some]
      refine ⟨by rw [← apart.bitmap q (by omega), bitmap_eq (by omega), isFree], List.mem_range.mpr (by omega),
        fun j below => ?_⟩
      rw [← apart.bitmap j (by omega), bitmap_eq (by omega), least j below]
      rfl
    clear run
    generalize (freeInodePop s).2 = t at *
    have sup : t.stores.sup = s.stores.sup := by rw [stores, Stores.setPool_sup]
    have data : t.stores.data = s.stores.data := by rw [stores, Stores.setPool_data]
    refine ⟨fun k lower upper => ?_, fun k within => ?_, apart.blocks.of_same sup data⟩
    · rw [stores, Stores.setPool_pool, Pool.take_cell, apart.inodes k lower upper]
    · rw [StoreOp.popBitmap, found, Option.elim_some, bitmap_eq within, stores, Stores.setPool_pool, Bool.eq_iff_iff,
        Pool.take_free_iff, ← bitmap_eq within, apart.bitmap k within]
      by_cases same : k = q
      · simp [same]
      · simp [same]
  · have none : (List.range INODE_BLK_SIZE).find? free = Option.none := by
      rw [List.find?_range_eq_none]
      intro j within
      rw [← apart.bitmap j (by omega), bitmap_eq (by omega), empty j (by omega)]
      rfl
    have disk : (freeInodePop s).2.disk = s.disk := by rw [run]
    have same := stores_congr disk
    clear run disk
    generalize (freeInodePop s).2 = t at same
    rw [StoreOp.popBitmap, none, Option.elim_none]
    exact apart.of_pool (by rw [same]) (by rw [same]; exact apart.blocks)

theorem inodeDump (lower : 1 ≤ k) (upper : k < 4096) (x : Bytes) :
    Apart sup (Sfs.inodeDump s k x) (Function.update cell k (x.take INODE_SIZE)) free fl := by
  have stores := stores_inodeDump (s := s) (x := x) lower upper
  generalize Sfs.inodeDump s k x = s' at *
  have sup : s'.stores.sup = s.stores.sup := by rw [stores, Stores.setPool_sup]
  have data : s'.stores.data = s.stores.data := by rw [stores, Stores.setPool_data]
  refine ⟨fun j lower' upper' => ?_, fun j within => ?_, apart.blocks.of_same sup data⟩
  · rw [stores, Stores.setPool_pool]
    by_cases same : j = k
    · rw [same, Pool.write_cell_self, Function.update_self, INODE_SIZE]
    · rw [Pool.write_cell_of_ne _ _ same, Function.update_of_ne same, apart.inodes j lower' upper']
  · rw [bitmap_eq within, stores, Stores.setPool_pool, Pool.write_free, ← bitmap_eq within, apart.bitmap j within]

theorem inodePush (lower : 2 ≤ k) (upper : k < 4096) :
    Apart sup (freeInodePush s k) cell (Function.update free k true) fl := by
  have stores := stores_freeInodePush (s := s) lower upper
  have law := fun j within => freeInodePush_law (s := s) (j := j) lower upper within
  generalize freeInodePush s k = s' at *
  have sup : s'.stores.sup = s.stores.sup := by rw [stores, Stores.setPool_sup]
  have data : s'.stores.data = s.stores.data := by rw [stores, Stores.setPool_data]
  refine ⟨fun j lower' upper' => ?_, fun j within => ?_, apart.blocks.of_same sup data⟩
  · rw [stores, Stores.setPool_pool, Pool.give_cell, apart.inodes j lower' upper']
  · rw [law j within, apart.bitmap j within]
    by_cases same : j = k
    · simp [same]
    · simp [same]

theorem step (allowed : op.Allowed s) : Apart sup (op.run s) (op.onInodes cell) (op.onBitmap free) (op.onBlocks fl) := by
  cases op with
  | inodeDump k x => exact apart.inodeDump allowed.1 allowed.2 x
  | inodePop => exact apart.inodePop
  | inodePush k => exact apart.inodePush allowed.1 allowed.2
  | blockPop =>
    obtain ⟨blocks, pool⟩ := apart.blocks.blockPop
    exact apart.of_pool pool blocks
  | blockAllocate buff =>
    obtain ⟨blocks, pool⟩ := apart.blocks.blockAllocate buff
    exact apart.of_pool pool blocks
  | blockPush b =>
    obtain ⟨lower, upper, off⟩ := allowed
    obtain ⟨blocks, pool⟩ := apart.blocks.blockPush lower upper (off fl apart.blocks.list)
    exact apart.of_pool pool blocks

end Apart

theorem sfsInit_apart (disk : Bytes) : Apart (sfsInit disk).stores.sup (sfsInit disk) (fun k : Nat => inodeLoad (sfsInit disk) k)
    (3 ≤ ·) (List.range' 1025 31743) := by
  have initial := sfsInit_initial disk
  refine ⟨fun k lower upper => (inodeLoad_cell lower upper).symm, fun k within => bitmap_sfsInit within,
    initial.list, ?_, fun _ _ _ => rfl⟩
  rw [initial.count, List.length_range']
  rfl

/-- The stores on the disk do not interfere: after any calls an inode is the
one dumped last, the bitmap is made by the calls that take and release inodes
alone, and the superblock and the list of free blocks by those that take and
release blocks. -/
theorem stores_apart (run : Run StoreOp.run StoreOp.Allowed (sfsInit disk) ops s) :
    (∀ k : Nat, 1 ≤ k → k < 4096 → inodeLoad s k = ops.foldl StoreOp.onInodes (fun k : Nat => inodeLoad (sfsInit disk) k) k) ∧
    (∀ k < 4096, bitmap s k = ops.foldl StoreOp.onBitmap (3 ≤ ·) k) ∧
    SupOf (sfsInit disk).stores.sup s.stores (ops.foldl StoreOp.onBlocks (List.range' 1025 31743)) := by
  have apart : Apart (sfsInit disk).stores.sup s (ops.foldl StoreOp.onInodes fun k : Nat => inodeLoad (sfsInit disk) k)
      (ops.foldl StoreOp.onBitmap (3 ≤ ·)) (ops.foldl StoreOp.onBlocks (List.range' 1025 31743)) := by
    induction run with
    | nil => exact sfsInit_apart disk
    | next _ allowed ih =>
      simp only [List.foldl_append, List.foldl_cons, List.foldl_nil]
      exact ih.step allowed
  exact ⟨fun k lower upper => (inodeLoad_cell lower upper).trans (apart.inodes k lower upper), apart.bitmap, apart.blocks⟩

/-- An inode in the block of the superblock, dumped between the calls of the other stores. -/
theorem stores_apart_first : inodeLoad (StoreOp.run (StoreOp.run (StoreOp.run (sfsInit Bytes.zero)
    (.inodeDump 1 (fun _ => 7))) .blockPop) .inodePop) (1 : Nat) = Bytes.take 128 fun _ => 7 :=
  (stores_apart (((Run.nil.next (show StoreOp.Allowed _ (.inodeDump 1 _) from ⟨by decide, by decide⟩)).next
    (show StoreOp.Allowed _ .blockPop from trivial)).next (show StoreOp.Allowed _ .inodePop from trivial))).1 1
    (by decide) (by decide)

end Sfs
