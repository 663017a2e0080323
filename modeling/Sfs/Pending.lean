import Sfs.Superblock

namespace Sfs

variable {s : State} {k : Nat} {c : List UInt8} {ops : List Op} {disk : Bytes}

/-- No error is pending after a run of ready requests. -/
theorem run_errno (run : Run step Ready (sfsInit disk) ops s) : s.errno = 0 := by
  obtain ⟨L, fl, good⟩ := run_ready run
  exact good.errno

theorem run_errno_written : (step firstState (.write (render [[97]]) Bytes.zero 600 0)).errno = 0 := by
  obtain ⟨k, first⟩ := firstState_firstFile
  exact run_errno (run_first.next (first.ready_write Bytes.zero))

/-- With the head at block 0 an allocation fails, and its result is not negative. -/
theorem freeBlockAllocate_zero (head : freeBlockHead s.stores.sup = 0) : ∃ t, freeBlockAllocate s none = (0, t) ∧
    t.stores = s.stores ∧ t.errno = -ENOSPC := by
  simp only [freeBlockAllocate, superblockRead_eq, head]
  exact ⟨_, rfl, rfl, rfl⟩

theorem stores_fSet (s : State) (i b : Int) : (fSet s i b).stores = s.stores := by
  rw [fSet]
  split
  · exact stores_fault _
  · exact stores_setF _ _

theorem fSet_errno (s : State) (i b : Int) : (fSet s i b).errno = s.errno := by
  rw [fSet]
  split <;> rfl

/-- `sfs_truncate` does not take the error that it has caused. -/
theorem ZeroHead.errno (zero : ZeroHead s k c) : (step s (.truncate (render [c]) 512)).errno = -ENOSPC := by
  obtain ⟨node, rows, head⟩ := zero
  have glance := pathToInum_glance s (render [c])
  generalize after : (pathToInum s (render [c])).2 = s₁ at glance
  have same := glance.stores_eq
  have range := node.owned.node_range FirstNode.live
  have two : int32 (512 / BLOCK_SIZE + 1 : Nat) = (2 : Nat) := by decide
  have run := sfsTruncate_eq node.found after (by omega) two
  obtain ⟨f, listed, _⟩ := Marked.fnodeListing_spec (s := s₁) (by rw [same]; exact node.owned.toMarked) FirstNode.live
    (by rw [same]; exact node.file)
  have same₁ := (stores_setF s₁ f).trans same
  have one : (((2 : Nat) : Int) - (1 : Nat)).toNat = 1 := by decide
  have grown : truncateTo s₁ k 2 (int32 (512 : Nat)) = trimTo (growBlocks (fnodeListing s₁ k).2 (fnodeListing s₁ k).1
      (((2 : Nat) : Int) - (fnodeListing s₁ k).1).toNat) k 2 (int32 (512 : Nat)) := rfl
  rw [grown, listed, same, rows, one, growBlocks, growBlocks] at run
  generalize { s₁ with f := f } = s₂ at run same₁
  obtain ⟨t, failed, stores, errno⟩ := freeBlockAllocate_zero (s := s₂) (by rw [same₁, head])
  rw [failed] at run
  have storesT := ((stores_fSet t (1 : Nat) 0).trans stores).trans same₁
  have errnoT := (fSet_errno t (1 : Nat) 0).trans errno
  rw [step, Op.run, run]
  dsimp only
  generalize fSet t (1 : Nat) 0 = u at *
  have file : isdir (u.stores.pool.cell k) = 0 := by rw [storesT]; exact node.file
  obtain ⟨f', _, trimmed⟩ := trimTo_inline (s := u) (n := 2) (v := int32 (512 : Nat)) (by rw [storesT]; exact node.owned)
    FirstNode.live file (by decide)
  have none : size (u.stores.pool.cell k) - 2 = 0 := by rw [storesT, rows]
  have same₂ := stores_setF u f'
  have errno₂ : ({ u with f := f' } : State).errno = u.errno := rfl
  generalize { u with f := f' } = u' at trimmed same₂ errno₂
  have released : freeBlocks u' (2 : Nat) (size (u.stores.pool.cell k) - 2) = u' := by
    rw [none]
    rfl
  rw [(trimmed _ released (by rw [same₂])).errno, errno₂, errnoT]

/-- The error of `sfs_truncate` is still pending when the next request comes. -/
theorem truncate_leaves_error :
    Run step Vfs (sfsInit Bytes.zero) [.create (render [[97]]) Bytes.zero, .truncate (render [[97]]) 512,
        .truncate (render [[97]]) 0, .truncate (render [[97]]) 512]
      (step (step (step firstState (.truncate (render [[97]]) 512)) (.truncate (render [[97]]) 0))
        (.truncate (render [[97]]) 512)) ∧
    ¬ (step (step (step firstState (.truncate (render [[97]]) 512)) (.truncate (render [[97]]) 0))
      (.truncate (render [[97]]) 512)).errno = 0 := by
  obtain ⟨k, first⟩ := firstState_firstFile
  obtain ⟨s₁, f, glance, trunc⟩ := first.truncated (show 512 < FCONTENT_MAX_SIZE by decide)
  have node := first.truncated_node glance trunc
  have zero := first.zeroHead
  have run := (((run_first.mono fun _ _ => Ready.vfs).next (first.node.vfs_truncate 512)).next
    (node.vfs_truncate 0)).next (zero.node.vfs_truncate 512)
  refine ⟨run, ?_⟩
  rw [zero.errno]
  decide

end Sfs
