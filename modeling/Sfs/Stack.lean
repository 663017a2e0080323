import Sfs.Init
import Sfs.Lib.Run

namespace Sfs

/-- The list `fl` as it is linked through the free blocks on the disk. -/
def FreeChain (s : State) (fl : List Nat) : Prop :=
  Chain (fun b => freeBlockNext (blockRead s b)) (freeBlockHead (blockRead s 0)) fl

/-- The calls made between two looks at the list. -/
inductive StackOp
  | pop
  | allocate (buff : Option Bytes)
  | push (b : Nat)
  | write (b : Nat) (x : Bytes)
  | dump (slot : Nat) (x : Bytes)

namespace StackOp

def run (s : State) : StackOp → State
  | pop => (freeBlockPop s).2
  | allocate buff => (freeBlockAllocate s buff).2
  | push b => freeBlockPush s b
  | write b x => blockWrite s b x
  | dump slot x => inodeDump s slot x

/-- What the call does to a stack. -/
def onStack (fl : List Nat) : StackOp → List Nat
  | pop | allocate _ => fl.tail
  | push b => b :: fl
  | write _ _ | dump _ _ => fl

/-- A block is not pushed or written while it is on the stack. -/
def Allowed (fl : List Nat) : StackOp → Prop
  | pop | allocate _ => True
  | push b | write b _ => 1 ≤ b ∧ b < MAX_BLOCK_NUM ∧ b ∉ fl
  | dump slot _ => 1 ≤ slot ∧ slot ≤ 3

end StackOp

/-- The list is finite, without repetition, and as long as the count says. -/
structure Stacked (s : State) (fl : List Nat) : Prop where
  chain : FreeChain s fl
  nodup : fl.Nodup
  area : ∀ b ∈ fl, 1 ≤ b ∧ b < MAX_BLOCK_NUM
  count : freeBlockSize s.superBlockBuf = fl.length
  synced : Synced s

/-- The top of a stack, -1 of an empty one. -/
def top : List Nat → Int
  | [] => -1
  | b :: _ => b

/-- Of the disk only the superblock is different, with a new head and count. -/
structure Reheaded (s s' : State) (head count : Int) : Prop where
  head : freeBlockHead s'.stores.sup = int32 head
  count : freeBlockSize s'.stores.sup = int32 count
  synced : Synced s'
  block : ∀ a : Nat, 0 < a → a < 4194304 → blockRead s' a = blockRead s a
  rest : ∀ o, 128 ≤ o → blockRead s' 0 o = blockRead s 0 o
  errno : s'.errno = s.errno

variable {s s₀ s' t : State} {fl : List Nat} {a b k o : Nat} {x : Bytes} {buff : Option Bytes} {ops : List StackOp}

theorem blockRead_note (call : Call) (b : Int) : blockRead (s.note call) b = blockRead s b := rfl

theorem freeBlockHead_block : freeBlockHead (blockRead s 0) = freeBlockHead s.stores.sup := by
  rw [← take_blockRead_zero, freeBlockHead, freeBlockHead, getInt_take (by omega)]

theorem Synced.size_eq (synced : Synced s) : freeBlockSize s.superBlockBuf = freeBlockSize s.stores.sup := by
  rw [← synced, freeBlockSize, freeBlockSize, getInt_take (by omega)]

/-- Of block 0 the superblock is the first 128 bytes. -/
theorem blockRead_superblockWrite_zero (past : 128 ≤ o) : blockRead (superblockWrite s) 0 o = blockRead s 0 o := by
  have zero : (0 : Int) = ((0 : Nat) : Int) := rfl
  have within : 0 < 4194304 := by decide
  simp only [superblockWrite, zero, SUPERBLOCK_SIZE]
  rw [blockRead_blockWrite_self within]
  by_cases inside : o < 512
  · rw [Bytes.take_apply_of_lt inside, Bytes.copy_apply_of_not_mem (by omega)]
  · rw [Bytes.take, if_neg inside, blockRead_nat _ within]
    exact (if_neg inside).symm

theorem reheaded {x y : Bytes} {head count : Int} (atY : supWith s.stores.sup head count = y) :
    Reheaded s (superblockWrite { s with blockBuf := x, superBlockBuf := y }) head count := by
  have stores := stores_superblockWrite (s := { s with blockBuf := x, superBlockBuf := y })
  have sup : (superblockWrite { s with blockBuf := x, superBlockBuf := y }).stores.sup = y.take 128 := by
    rw [stores, Stores.setSup_sup]
  exact ⟨by rw [sup, ← atY, head_supWith], by rw [sup, ← atY, size_supWith], superblockWrite_synced,
    fun a positive within => blockRead_superblockWrite positive within,
    fun o past => blockRead_superblockWrite_zero past, superblockWrite_errno⟩

/-- Taking block `b` off the list. -/
theorem freeBlockUnlink_reheaded : Reheaded s
    (freeBlockUnlink { s with blockBuf := blockRead s 0, superBlockBuf := s.stores.sup } b)
    (freeBlockNext (blockRead s b)) (freeBlockSize s.stores.sup - 1) := by
  rw [freeBlockUnlink_eq]
  exact reheaded rfl

namespace Stacked

variable (stacked : Stacked s fl)

include stacked

theorem head_eq : freeBlockHead s.stores.sup = top fl := by
  have chain := stacked.chain
  rw [FreeChain, freeBlockHead_block] at chain
  cases fl with
  | nil => exact chain
  | cons b rest => exact chain.1

theorem length_lt : fl.length < 32768 := by
  have sub : fl.toFinset ⊆ (Finset.range 32768).erase 0 := fun b member => by
    have := stacked.area b (List.mem_toFinset.mp member)
    exact Finset.mem_erase.mpr ⟨by omega, Finset.mem_range.mpr this.2⟩
  have le := Finset.card_le_card sub
  rw [List.toFinset_card_of_nodup stacked.nodup, Finset.card_erase_of_mem (by simp), Finset.card_range] at le
  omega

/-- Blocks off the list may change, and so may what lies behind the superblock. -/
theorem congr (sup : s'.stores.sup = s.stores.sup) (buf : s'.superBlockBuf = s.superBlockBuf)
    (block : ∀ c ∈ fl, blockRead s' c = blockRead s c) : Stacked s' fl where
  chain := by
    rw [FreeChain, freeBlockHead_block, sup, ← freeBlockHead_block]
    exact stacked.chain.congr fun c member => by rw [block c member]
  nodup := stacked.nodup
  area := stacked.area
  count := by rw [buf, stacked.count]
  synced := by
    rw [Synced, buf, sup]
    exact stacked.synced

theorem note (call : Call) : Stacked (s.note call) fl := stacked.congr rfl rfl fun _ _ => rfl

end Stacked

/-- The rest of the list stays when its head has been taken off. -/
theorem Stacked.tail (stacked : Stacked s (b :: fl)) (off : Reheaded s t (freeBlockNext (blockRead s b))
    (freeBlockSize s.stores.sup - 1)) : Stacked t fl where
  chain := by
    have rest := stacked.chain.2
    rw [FreeChain, freeBlockHead_block, off.head, freeBlockNext, int32_getInt]
    refine rest.congr fun c member => ?_
    have range := stacked.area c (List.mem_cons_of_mem _ member)
    rw [off.block c (by omega) (by simp only [MAX_BLOCK_NUM] at range; omega)]
  nodup := stacked.nodup.of_cons
  area c member := stacked.area c (List.mem_cons_of_mem _ member)
  count := by
    have short := stacked.length_lt
    have count := stacked.count
    rw [stacked.synced.size_eq] at count
    rw [List.length_cons] at short count
    rw [off.synced.size_eq, off.count, count, int32_of_mem (by omega) (by omega)]
    omega
  synced := off.synced

/-- A call on a list that has a block. -/
theorem Stacked.pop_cons (stacked : Stacked s (b :: fl)) : (freeBlockPop s).1 = b ∧
    Stacked (freeBlockPop s).2 fl := by
  have head : freeBlockHead s.stores.sup = b := stacked.head_eq
  have range := stacked.area b (List.mem_cons_self ..)
  have positive : (b : Int) > 0 := by omega
  simp only [freeBlockPop, superblockRead_eq, head, positive, if_true, true_and]
  exact (stacked.tail freeBlockUnlink_reheaded).note _

theorem Stacked.allocate_cons (buff : Option Bytes) (stacked : Stacked s (b :: fl)) : (freeBlockAllocate s buff).1 = b ∧
    Stacked (freeBlockAllocate s buff).2 fl ∧
    blockRead (freeBlockAllocate s buff).2 b = (buff.getD Bytes.zero).take 512 ∧
    (∀ c : Nat, 1 ≤ c → c < MAX_BLOCK_NUM → c ≠ b →
      blockRead (freeBlockAllocate s buff).2 c = blockRead s c) ∧
    ∀ o, 128 ≤ o → blockRead (freeBlockAllocate s buff).2 0 o = blockRead s 0 o := by
  have head : freeBlockHead s.stores.sup = b := stacked.head_eq
  have range := stacked.area b (List.mem_cons_self ..)
  have within : b < 4194304 := by simp only [MAX_BLOCK_NUM] at range; omega
  have positive : (b : Int) > 0 := by omega
  have off := freeBlockUnlink_reheaded (s := s) (b := b)
  generalize atU : freeBlockUnlink { s with blockBuf := blockRead s 0, superBlockBuf := s.stores.sup } b = u at off
  have run : freeBlockAllocate s buff = (↑b, (blockWrite u b (buff.getD emptyBlk)).note (.freeBlockAllocate b)) := by
    simp only [freeBlockAllocate, superblockRead_eq, head, positive, if_true, atU]
  rw [run]
  have self := blockRead_blockWrite_self (s := u) (x := buff.getD emptyBlk) within
  have other := fun (c : Nat) within' ne => blockRead_blockWrite_of_ne (s := u) (x := buff.getD emptyBlk) (a := c)
    within within' ne
  have buf := blockWrite_superBlockBuf u b (buff.getD emptyBlk)
  generalize blockWrite u b (buff.getD emptyBlk) = v at *
  have rest := stacked.tail off
  have zero : blockRead v (0 : Nat) = blockRead u (0 : Nat) := other 0 (by omega) (by omega)
  have apart : ∀ c ∈ fl, c ≠ b := by
    rintro c member rfl
    exact (List.nodup_cons.mp stacked.nodup).1 member
  have after : Stacked v fl := rest.congr (sup_eq_of_block_zero zero) buf fun c member => by
    have := rest.area c member
    simp only [MAX_BLOCK_NUM] at this
    exact other c (by omega) (apart c member)
  have frame : ∀ c : Nat, 1 ≤ c → c < MAX_BLOCK_NUM → c ≠ b → blockRead v c = blockRead s c := fun c lower upper ne => by
    simp only [MAX_BLOCK_NUM] at upper
    exact (other c (by omega) ne).trans (off.block c (by omega) (by omega))
  have behind : ∀ o, 128 ≤ o → blockRead v 0 o = blockRead s 0 o := fun o past =>
    (congrFun zero o).trans (off.rest o past)
  rw [blockRead_note]
  refine ⟨rfl, after.note _, self, fun c => ?_, fun o => ?_⟩ <;> rw [blockRead_note]
  · exact frame c
  · exact behind o

/-- A call on an empty list fails. -/
theorem Stacked.pop_nil (stacked : Stacked s []) : (freeBlockPop s).1 = -1 ∧ Stacked (freeBlockPop s).2 [] ∧
    (freeBlockPop s).2.errno = -ENOSPC ∧ (freeBlockPop s).2.disk = s.disk := by
  have head : freeBlockHead s.stores.sup = -1 := stacked.head_eq
  have negative : ¬ (-1 : Int) > 0 := by omega
  have count := stacked.count
  rw [stacked.synced.size_eq] at count
  simp only [freeBlockPop, superblockRead_eq, head, negative, if_false, true_and]
  exact ⟨⟨stacked.chain, stacked.nodup, stacked.area, count, Bytes.take_take⟩, rfl, rfl⟩

theorem Stacked.allocate_nil (buff : Option Bytes) (stacked : Stacked s []) : (freeBlockAllocate s buff).1 = -1 ∧
    Stacked (freeBlockAllocate s buff).2 [] ∧ (freeBlockAllocate s buff).2.errno = -ENOSPC ∧
    (freeBlockAllocate s buff).2.disk = s.disk := by
  have head : freeBlockHead s.stores.sup = -1 := stacked.head_eq
  have negative : ¬ (-1 : Int) > 0 := by omega
  have count := stacked.count
  rw [stacked.synced.size_eq] at count
  simp only [freeBlockAllocate, superblockRead_eq, head, negative, if_false, true_and]
  exact ⟨⟨stacked.chain, stacked.nodup, stacked.area, count, Bytes.take_take⟩, rfl, rfl⟩

theorem Stacked.push (stacked : Stacked s fl) (lower : 1 ≤ b) (upper : b < MAX_BLOCK_NUM) (new : b ∉ fl) :
    Stacked (freeBlockPush s b) (b :: fl) := by
  have within : b < 4194304 := by simp only [MAX_BLOCK_NUM] at upper; omega
  have short := stacked.length_lt
  have atHead : freeBlockNext ((putInt (blockRead s 0) 0 (freeBlockHead s.stores.sup)).take 512) = top fl := by
    rw [freeBlockNext_putInt, freeBlockHead, int32_getInt]
    exact stacked.head_eq
  generalize atLink : putInt (blockRead s 0) 0 (freeBlockHead s.stores.sup) = link at atHead
  have push := freeBlockPush_eq (b := b) atLink rfl
  have self := blockRead_blockWrite_self (s := { s with blockBuf := link, superBlockBuf := s.stores.sup })
    (x := link) within
  have other := fun (c : Nat) within' ne => blockRead_blockWrite_of_ne
    (s := { s with blockBuf := link, superBlockBuf := s.stores.sup }) (x := link) (a := c) within within' ne
  have buf := blockWrite_superBlockBuf { s with blockBuf := link, superBlockBuf := s.stores.sup } b link
  have start : ∀ c : Nat, blockRead { s with blockBuf := link, superBlockBuf := s.stores.sup } c = blockRead s c :=
    fun _ => rfl
  generalize blockWrite { s with blockBuf := link, superBlockBuf := s.stores.sup } b link = linked at *
  have zero : blockRead linked (0 : Nat) = blockRead s (0 : Nat) := other 0 (by omega) (by omega)
  have sup : linked.stores.sup = s.stores.sup := sup_eq_of_block_zero zero
  have on : Reheaded linked (freeBlockPush s b) b (freeBlockSize s.stores.sup + 1) := by
    rw [push, buf]
    exact reheaded (by rw [sup])
  have count := stacked.count
  rw [stacked.synced.size_eq] at count
  have block : ∀ c ∈ fl, blockRead (freeBlockPush s b) c = blockRead s c := fun c member => by
    have range := stacked.area c member
    simp only [MAX_BLOCK_NUM] at range
    have apart : c ≠ b := by
      rintro rfl
      exact new member
    rw [on.block c (by omega) (by omega), other c (by omega) apart, start]
  refine ⟨?_, List.nodup_cons.mpr ⟨new, stacked.nodup⟩, fun c member => ?_, ?_, on.synced⟩
  · simp only [MAX_BLOCK_NUM] at upper
    rw [FreeChain, freeBlockHead_block, on.head, int32_of_mem (by omega) (by omega)]
    have link' : freeBlockNext (blockRead (freeBlockPush s b) b) = top fl := by
      rw [on.block b (by omega) within, self, atHead]
    have chain := stacked.chain
    rw [FreeChain, freeBlockHead_block, stacked.head_eq, ← link'] at chain
    exact ⟨rfl, chain.congr fun c member => by rw [block c member]⟩
  · rcases List.mem_cons.mp member with rfl | old
    · exact ⟨lower, upper⟩
    · exact stacked.area c old
  · rw [on.synced.size_eq, on.count, count, int32_of_mem (by omega) (by omega), List.length_cons]
    rfl

theorem Stacked.write (stacked : Stacked s fl) (lower : 1 ≤ b) (upper : b < MAX_BLOCK_NUM) (off : b ∉ fl) :
    Stacked (blockWrite s b x) fl := by
  have within : b < 4194304 := by simp only [MAX_BLOCK_NUM] at upper; omega
  have zero : blockRead (blockWrite s b x) (0 : Nat) = blockRead s (0 : Nat) :=
    blockRead_blockWrite_of_ne within (by omega) (by omega)
  refine stacked.congr (sup_eq_of_block_zero zero) (blockWrite_superBlockBuf s b x) fun c member => ?_
  have range := stacked.area c member
  simp only [MAX_BLOCK_NUM] at range
  refine blockRead_blockWrite_of_ne within (by omega) ?_
  rintro rfl
  exact off member

/-- Slots 1 to 3 lie behind the superblock. -/
theorem Stacked.dump (stacked : Stacked s fl) (lower : 1 ≤ k) (upper : k ≤ 3) :
    Stacked (inodeDump s k x) fl := by
  have stores : (inodeDump s k x).stores = _ := stores_inodeDump lower (by omega)
  have dumped := inodeDump_eq (s := s) (k := k) (x := x) (by omega)
  refine stacked.congr (by rw [stores, Stores.setPool_sup]) (by rw [dumped]) fun c member => ?_
  have range := stacked.area c member
  simp only [MAX_BLOCK_NUM] at range
  rw [blockRead_nat _ (by omega), blockRead_nat _ (by omega), dumped]
  exact Bytes.window_copy_of_disjoint (by omega)

theorem Stacked.step (stacked : Stacked s fl) {op : StackOp} (allowed : op.Allowed fl) :
    Stacked (op.run s) (op.onStack fl) := by
  cases op with
  | pop =>
    cases fl with
    | nil => exact stacked.pop_nil.2.1
    | cons b rest => exact stacked.pop_cons.2
  | allocate buff =>
    cases fl with
    | nil => exact (stacked.allocate_nil buff).2.1
    | cons b rest => exact (stacked.allocate_cons buff).2.1
  | push b => exact stacked.push allowed.1 allowed.2.1 allowed.2.2
  | write b x => exact stacked.write allowed.1 allowed.2.1 allowed.2.2
  | dump slot x =>
    obtain ⟨lower, upper⟩ := allowed
    have after : Stacked (inodeDump s slot x) fl := stacked.dump lower upper
    exact after

theorem freeBlockInit_stacked (s₀ : State) : Stacked (freeBlockInit s₀) (List.range' 1 (MAX_BLOCK_NUM - 1)) := by
  obtain ⟨m, value⟩ : ∃ m, m = MAX_BLOCK_NUM - 1 := ⟨_, rfl⟩
  rw [← value]
  simp only [MAX_BLOCK_NUM] at value
  obtain ⟨head, count, next, synced, _, _⟩ := freeBlockInit_spec s₀
  refine ⟨?_, List.nodup_range', fun b member => ?_, ?_, synced⟩
  · have chain := Chain.ofRange (fun b => freeBlockNext (blockRead (freeBlockInit s₀) b)) 1 m
      (fun b lower upper => by rw [next b lower (by omega), if_pos (by omega)])
      (fun _ => by rw [next _ (by omega) (by omega), if_neg (by omega)])
    rw [if_neg (by omega)] at chain
    rw [FreeChain, freeBlockHead_block, head]
    exact chain
  · have := List.mem_range'_1.mp member
    simp only [MAX_BLOCK_NUM]
    omega
  · rw [synced.size_eq, count, List.length_range']
    omega

/-- The list of free blocks is a stack that starts as all blocks in order: in
every run of calls it stays a finite chain without repetition that is as long
as the count, and the calls pop and push on it. A call that finds it empty
reports that and leaves the disk alone. -/
theorem freeBlock_stack (buff : Option Bytes) (run : Run (fun (t : State × List Nat) op => (StackOp.run t.1 op, op.onStack t.2))
    (fun t op => op.Allowed t.2) (freeBlockInit s₀, List.range' 1 (MAX_BLOCK_NUM - 1)) ops (s, fl)) :
    Stacked s fl ∧ (freeBlockPop s).1 = top fl ∧ (freeBlockAllocate s buff).1 = top fl ∧
      (∀ b ∈ fl.head?, blockRead (freeBlockAllocate s buff).2 b = (buff.getD Bytes.zero).take BLOCK_SIZE ∧
        (∀ c : Nat, 1 ≤ c → c < MAX_BLOCK_NUM → c ≠ b →
          blockRead (freeBlockAllocate s buff).2 c = blockRead s c) ∧
        ∀ o, SUPERBLOCK_SIZE ≤ o → blockRead (freeBlockAllocate s buff).2 0 o = blockRead s 0 o) ∧
      (fl = [] → (freeBlockPop s).2.errno = -ENOSPC ∧ (freeBlockPop s).2.disk = s.disk ∧
        (freeBlockAllocate s buff).2.errno = -ENOSPC ∧ (freeBlockAllocate s buff).2.disk = s.disk) := by
  have stacked : Stacked s fl := Run.invariant (I := fun t : State × List Nat => Stacked t.1 t.2) (freeBlockInit_stacked s₀)
    (fun t op stacked allowed => stacked.step allowed) run
  refine ⟨stacked, ?_⟩
  cases fl with
  | nil =>
    obtain ⟨pop, _, errno, disk⟩ := stacked.pop_nil
    obtain ⟨allocate, _, errno', disk'⟩ := stacked.allocate_nil buff
    exact ⟨pop, allocate, fun b member => by simp at member, fun _ => ⟨errno, disk, errno', disk'⟩⟩
  | cons b rest =>
    obtain ⟨allocate, _, image, frame, behind⟩ := stacked.allocate_cons buff
    refine ⟨stacked.pop_cons.1, allocate, fun c member => ?_, fun empty => absurd empty (List.cons_ne_nil _ _)⟩
    obtain rfl : b = c := by simpa using member
    exact ⟨image, frame, behind⟩

theorem freeBlock_stack_pop : Stacked (freeBlockPop (freeBlockInit (boot Bytes.zero))).2
    (List.range' 1 (MAX_BLOCK_NUM - 1)).tail :=
  (freeBlock_stack none (.next .nil (show StackOp.Allowed _ .pop from trivial))).1

end Sfs
