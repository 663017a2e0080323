import Sfs.Exclusive

namespace Sfs

/-- Nothing but the functions of the free list has written to the superblock,
and its head is the end mark or a data block. -/
structure SuperblockSafe (s : State) : Prop where
  dumps : ∀ inum : Int, .inodeDump inum ∈ s.trace → 2 ≤ inum ∧ inum < INODE_BLK_SIZE
  synced : Synced s
  head : freeBlockHead s.stores.sup = -1 ∨
    1025 ≤ freeBlockHead s.stores.sup ∧ freeBlockHead s.stores.sup < MAX_BLOCK_NUM

variable {L : Set Nat} {s s' t : State} {fl : List Nat} {k n : Nat} {c : List UInt8} {f : Bytes} {v : Int}
  {ops : List Op} {disk : Bytes}

theorem FreeList.head_cases {w : Stores} (list : FreeList w fl) :
    freeBlockHead w.sup = -1 ∨ 1025 ≤ freeBlockHead w.sup ∧ freeBlockHead w.sup < MAX_BLOCK_NUM := by
  cases fl with
  | nil => exact Or.inl list.chain
  | cons b fl =>
    obtain ⟨head, lower, upper⟩ := list.head_pos
    rw [MAX_BLOCK_NUM]
    omega

/-- Runs of ready requests keep the superblock. -/
theorem run_superblockSafe (run : Run step Ready (sfsInit disk) ops s) : SuperblockSafe s := by
  obtain ⟨L, fl, good⟩ := run_ready run
  exact ⟨fun inum member => good.sound _ member, good.synced, good.list.head_cases⟩

theorem run_superblockSafe_written :
    SuperblockSafe (step firstState (.write (render [[97]]) Bytes.zero 600 0)) := by
  obtain ⟨k, first⟩ := firstState_firstFile
  exact run_superblockSafe (run_first.next (first.ready_write Bytes.zero))

/-- Releasing block 0 makes it the head of the list. -/
theorem stores_freeBlockPush_zero (s : State) : (freeBlockPush s 0).stores = s.stores.setSup
    ((supWith s.stores.sup 0 (freeBlockSize s.stores.sup + 1)).take 128) := by
  generalize atLink : putInt (blockRead s 0) 0 (freeBlockHead s.stores.sup) = link
  have push := freeBlockPush_eq (s := s) (b := 0) atLink rfl
  have zero : (0 : Int) = (0 : Nat) := rfl
  have buffers : ({ s with blockBuf := link, superBlockBuf := s.stores.sup } : State).stores = s.stores := stores_congr rfl
  have written := blockWrite_eq (s := { s with blockBuf := link, superBlockBuf := s.stores.sup }) (x := link)
    (show 0 < 4194304 by decide)
  -- block 0 is written back with its own bytes past the superblock
  have after : (blockWrite { s with blockBuf := link, superBlockBuf := s.stores.sup } (0 : Nat) link).stores =
      s.stores.setSup (link.take 128) := by
    have sup := stores_superblockWrite_with (s := s) link
    rw [← sup]
    refine stores_congr ?_
    rw [superblockWrite, zero, blockWrite_nat _ _ (by decide), blockWrite_nat _ _ (by decide)]
    dsimp only
    refine funext fun i => ?_
    by_cases inside : i < 512
    · rw [Bytes.copy_apply_of_mem (by omega) (by omega), Bytes.copy_apply_of_mem (by omega) (by omega)]
      by_cases head : i < 128
      · rw [Bytes.copy_apply_of_mem (by omega) (by rw [SUPERBLOCK_SIZE]; omega)]
        congr 1
        omega
      · rw [Bytes.copy_apply_of_not_mem (by rw [SUPERBLOCK_SIZE]; omega), ← atLink, putInt,
          Bytes.put32_apply_of_ne (by omega)]
        rfl
    · rw [Bytes.copy_apply_of_not_mem (by omega), Bytes.copy_apply_of_not_mem (by omega)]
  rw [zero] at push ⊢
  generalize blockWrite { s with blockBuf := link, superBlockBuf := s.stores.sup } (0 : Nat) link = linked at *
  have buf : linked.superBlockBuf = s.stores.sup := by rw [written]
  rw [push, stores_superblockWrite_with, after, buf]
  rfl

/-- `trimTo` on a list that stays in the inode. After the blocks have been
released, neither the superblock nor the pending error is touched. -/
structure Trimmed (L : Set Nat) (s t s' : State) (k n : Nat) : Prop where
  sup : s'.stores.sup = t.stores.sup
  errno : s'.errno = t.errno
  repaged : ∃ f, Repaged L s.stores.pool s'.stores.pool k n f

theorem trimTo_inline (owned : Owned L s.stores.pool) (live : k ∈ L) (file : isdir (s.stores.pool.cell k) = 0)
    (inline : n ≤ 24) : ∃ f, (∀ o, Filled (endOf (s.stores.pool.cell k)) o → f o = bytesOf s.stores.pool k o) ∧
      ∀ t, freeBlocks { s with f } n (size (s.stores.pool.cell k) - n) = t → t.stores.pool = s.stores.pool →
        Trimmed L s t (trimTo s k n v) k n := by
  obtain ⟨f, listed, filled, _⟩ := owned.fnodeListing_spec live file
  have range := owned.node_range live
  have short : ushort k = k := ushort_nat (by omega)
  have count : ((size (s.stores.pool.cell k) : Nat) - (n : Int)).toNat = size (s.stores.pool.cell k) - n := by omega
  have pages : ∀ {cacheEnd} {p : Pool Bytes} {final}, Pops p (blknumSize * n) cacheEnd final := fun {cacheEnd p final} =>
    Or.inr (by rw [pageCount_inline (by rw [blknumSize]; omega)]; exact Nat.zero_le _)
  refine ⟨f, filled, fun t released pool => ?_⟩
  simp only [trimTo, fstreamFree, short, listed, count, released]
  obtain ⟨first, _, _⟩ := fnodeListingSet_spec (s := t) (by rwa [pool]) live (by rw [pool]; exact file)
    (inline.trans (by decide)) rfl pages
  generalize fnodeListingSet t k n = t₁ at *
  have file₁ : isdir (t₁.stores.pool.cell k) = 0 := by
    rw [first.toRepaged.resized.isdir_eq, pool]
    exact file
  obtain ⟨second, _, _⟩ := fnodeListingSet_spec (s := t₁) first.owned live file₁ (inline.trans (by decide)) rfl pages
  generalize fnodeListingSet t₁ k n = t₂ at *
  have file₂ : isdir (t₂.stores.pool.cell k) = 0 := by
    rw [second.toRepaged.resized.isdir_eq]
    exact file₁
  obtain ⟨x, quiet, stores, header, _⟩ := inodeSetAttrUpc_spec second.owned.toMarked live file₂ v
  generalize inodeSetAttrUpc t₂ k v = s' at *
  have repaged := (first.toRepaged.trans live second.toRepaged).header live header
  rw [pool] at repaged
  refine ⟨?_, ?_, t₁.f, ?_⟩
  · rw [stores, Stores.setPool_sup, second.rest, Stores.setPool_sup, first.rest, Stores.setPool_sup]
  · rw [quiet.errno_eq, second.errno, first.errno]
  · rw [stores, Stores.setPool_pool]
    exact repaged

/-- The file has one block, number 0, and the free list starts there. -/
structure ZeroHead (s : State) (k : Nat) (c : List UInt8) : Prop where
  node : FirstNode s k c
  rows : size (s.stores.pool.cell k) = 1
  head : freeBlockHead s.stores.sup = 0

/-- A file that is set to 512 bytes and back releases block 0. -/
theorem FirstFile.zeroHead (first : FirstFile s k c) :
    ZeroHead (step (step s (.truncate (render [c]) 512)) (.truncate (render [c]) 0)) k c := by
  obtain ⟨s₁, f, glance, trunc⟩ := first.truncated (show 512 < FCONTENT_MAX_SIZE by decide)
  have node := first.truncated_node glance trunc
  have rows : size ((step s (.truncate (render [c]) 512)).stores.pool.cell k) = 2 := trunc.repaged.resized.size
  have entry := first.truncated_entry glance trunc (show 1 < 512 / 512 + 1 by decide) (by decide)
  generalize step s (.truncate (render [c]) 512) = t at *
  have glance' := pathToInum_glance t (render [c])
  generalize after : (pathToInum t (render [c])).2 = t₁ at glance'
  have same := glance'.stores_eq
  have range := node.owned.node_range FirstNode.live
  have one : int32 (0 / BLOCK_SIZE + 1 : Nat) = (1 : Nat) := by decide
  have run := sfsTruncate_eq node.found after (by omega) one
  obtain ⟨f₁, shorter⟩ := truncateTo_shorter (s := t₁) (n := 1) (v := int32 (0 : Nat)) (by rw [same]; exact node.owned.toMarked)
    FirstNode.live (by rw [same]; exact node.file) (by rw [same, rows]; decide)
  rw [shorter] at run
  have same₁ := (stores_setF t₁ f₁).trans same
  generalize { t₁ with f := f₁ } = t₂ at run same₁
  have file : isdir (t₂.stores.pool.cell k) = 0 := by rw [same₁]; exact node.file
  obtain ⟨f₂, filled, trimmed⟩ := trimTo_inline (s := t₂) (n := 1) (v := int32 (0 : Nat)) (by rw [same₁]; exact node.owned)
    FirstNode.live file (by decide)
  rw [endOf_file file] at filled
  have number : fNo f₂ 1 = 0 := by
    have bytes := block_congr filled (by rw [same₁, rows]; decide)
      (show 1 < size (t₂.stores.pool.cell k) by rw [same₁, rows]; decide)
    rw [same₁] at bytes
    exact bytes.trans entry
  have same₂ := stores_setF t₂ f₂
  have buf : ({ t₂ with f := f₂ } : State).f = f₂ := rfl
  generalize { t₂ with f := f₂ } = t₃ at trimmed same₂ buf
  have block : fGet t₃ (1 : Nat) = 0 := by
    rw [fGet_nat (by rw [buf, number]; decide), buf, number]
    rfl
  have rounds : size (t₂.stores.pool.cell k) - 1 = 1 := by rw [same₁, rows]
  have pushed := stores_freeBlockPush_zero t₃
  have released : freeBlocks t₃ (1 : Nat) (size (t₂.stores.pool.cell k) - 1) = freeBlockPush t₃ 0 := by
    rw [rounds, freeBlocks, block, fBad_nat (by decide), fault_false]
    rfl
  obtain ⟨sup, _, f₃, repaged⟩ := trimmed _ released (by rw [pushed, Stores.setSup_pool, same₂])
  rw [step, Op.run, run]
  rw [same₁] at repaged
  generalize trimTo t₂ k 1 (int32 (0 : Nat)) = u at *
  refine ⟨node.repaged repaged, repaged.resized.size, ?_⟩
  rw [sup, pushed, Stores.setSup_sup, head_supWith]
  rfl

/-- The request frees block 0, which is then the head of the free list. -/
theorem truncate_frees_block_zero :
    Run step Vfs (sfsInit Bytes.zero)
      [.create (render [[97]]) Bytes.zero, .truncate (render [[97]]) 512, .truncate (render [[97]]) 0]
      (step (step firstState (.truncate (render [[97]]) 512)) (.truncate (render [[97]]) 0)) ∧
    ¬ SuperblockSafe (step (step firstState (.truncate (render [[97]]) 512)) (.truncate (render [[97]]) 0)) := by
  obtain ⟨k, first⟩ := firstState_firstFile
  obtain ⟨s₁, f, glance, trunc⟩ := first.truncated (show 512 < FCONTENT_MAX_SIZE by decide)
  have node := first.truncated_node glance trunc
  have run := ((run_first.mono fun _ _ => Ready.vfs).next (first.node.vfs_truncate 512)).next (node.vfs_truncate 0)
  refine ⟨run, fun safe => ?_⟩
  have head := safe.head
  rw [first.zeroHead.head] at head
  omega

end Sfs
