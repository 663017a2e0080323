import Sfs.Extend
import Sfs.Live

namespace Sfs

/-- The blocks of the files are data blocks off the free list `fl`, and each is in one place. -/
structure Exclusive (s : State) (fl : List Nat) : Prop where
  area : ∀ k, LiveFile s k → ∀ b ∈ listedFile s k, 1025 ≤ b ∧ b < MAX_BLOCK_NUM
  off : ∀ k, LiveFile s k → ∀ b ∈ listedFile s k, b ∉ fl
  once : ∀ k k', LiveFile s k → LiveFile s k' → ∀ i j b : Nat, (listedFile s k)[i]? = some b →
    (listedFile s k')[j]? = some b → k = k' ∧ i = j

def BlocksExclusive (s : State) : Prop := ∃ fl, FreeList s.stores fl ∧ Exclusive s fl

variable {L : Set Nat} {s : State} {fl : List Nat} {k n j offset : Nat} {c : List UInt8} {f : Bytes} {ops : List Op}
  {disk : Bytes}

theorem Good.exclusive (good : Good s L fl) : Exclusive s fl := by
  refine ⟨fun k found b member => ?_, fun k found b member => ?_, fun k k' found found' i j b here there => ?_⟩
  · obtain ⟨live, file⟩ := good.tree.liveFile good.owned found
    rw [good.owned.listedFile_eq live file] at member
    exact good.blocks.area k live file b member
  · obtain ⟨live, file⟩ := good.tree.liveFile good.owned found
    rw [good.owned.listedFile_eq live file] at member
    exact List.disjoint_of_nodup_append (good.blocks.nodup k live file) member
  · obtain ⟨live, file⟩ := good.tree.liveFile good.owned found
    obtain ⟨live', file'⟩ := good.tree.liveFile good.owned found'
    rw [good.owned.listedFile_eq live file] at here
    rw [good.owned.listedFile_eq live' file'] at there
    by_cases same : k = k'
    · subst same
      have nodup := (good.blocks.nodup k live file).of_append_left
      obtain ⟨within, value⟩ := List.getElem?_eq_some_iff.mp here
      obtain ⟨within', value'⟩ := List.getElem?_eq_some_iff.mp there
      exact ⟨rfl, (nodup.getElem_inj_iff).mp (value.trans value'.symm)⟩
    · exact absurd (List.mem_of_getElem? there)
        (good.blocks.apart k live k' live' file file' same (List.mem_of_getElem? here))

/-- Setting the size of a new file, after the lookup. -/
theorem FirstFile.truncated (first : FirstFile s k c) (limit : offset < FCONTENT_MAX_SIZE) :
    ∃ s₁ f, Glance s s₁ ∧
      Truncated (insert k {2}) s₁ (step s (.truncate (render [c]) offset)) k (offset / 512 + 1) f (List.range' 1025 31743) := by
  have glance := pathToInum_glance s (render [c])
  have range := first.good.owned.node_range FirstFile.live
  have max : FCONTENT_MAX_SIZE = 4272128 := rfl
  have pages := pageCount_le (blknumSize * (offset / 512 + 1)) (blknumSize * size (s.stores.pool.cell k))
  have spare := first.spare
  generalize after : (pathToInum s (render [c])).2 = s₁ at glance
  have same := glance.stores_eq
  have run := sfsTruncate_eq first.found after (by omega) (newBlocks_eq (show offset < 4294967296 by omega))
  have file : isdir (s₁.stores.pool.cell k) = 0 := by rw [same]; exact first.file
  rw [step, Op.run, run]
  generalize result : truncateTo s₁ k (offset / 512 + 1) (int32 offset) = s'
  obtain ⟨f, trunc, _⟩ := (glance.consistent first.wellFormed.toConsistent).truncated FirstFile.live file
    (show offset / 512 + 1 ≤ 8344 by omega) result (Or.inr (by rw [endOf_file file]; simp only [same]; omega))
  exact ⟨s₁, f, glance, trunc⟩

/-- The blocks of the file are then number 0. -/
theorem FirstFile.truncated_entry {s₁ s' : State} (first : FirstFile s k c) (glance : Glance s s₁)
    (trunc : Truncated (insert k {2}) s₁ s' k n f (List.range' 1025 31743)) (within : j < n) (inline : n ≤ 24) :
    blockNo s'.stores.pool k j = 0 := by
  have same := glance.stores_eq
  have file : isdir (s₁.stores.pool.cell k) = 0 := by rw [same]; exact first.file
  have zero := first.entry (show j < 24 by omega)
  have rows := first.rows
  rw [← same] at zero rows
  rw [truncated_number_page trunc file (by omega) within (by rw [rows]; exact within.trans_le inline), zero]

theorem FirstFile.truncated_node {s₁ s' : State} (first : FirstFile s k c) (glance : Glance s s₁)
    (trunc : Truncated (insert k {2}) s₁ s' k n f fl) : FirstNode s' k c := by
  have repaged := trunc.repaged
  rw [glance.stores_eq] at repaged
  exact first.node.repaged repaged

/-- In runs of ready requests no block is in two places. -/
theorem run_blocksExclusive (run : Run step Ready (sfsInit disk) ops s) : BlocksExclusive s := by
  obtain ⟨L, fl, good⟩ := run_ready run
  exact ⟨fl, good.list, good.exclusive⟩

/-- The run that makes `/a` and writes to it. -/
theorem run_blocksExclusive_written :
    BlocksExclusive (step firstState (.write (render [[97]]) Bytes.zero 600 0)) := by
  obtain ⟨k, first⟩ := firstState_firstFile
  exact run_blocksExclusive (run_first.next (first.ready_write Bytes.zero))

/-- Setting the size of the empty file `/a` to 0 gives it block 0. -/
theorem truncate_shares_block_zero :
    Run step Vfs (sfsInit Bytes.zero) [.create (render [[97]]) Bytes.zero, .truncate (render [[97]]) 0]
      (step firstState (.truncate (render [[97]]) 0)) ∧
    ¬ BlocksExclusive (step firstState (.truncate (render [[97]]) 0)) := by
  obtain ⟨k, first⟩ := firstState_firstFile
  have run := (run_first.mono fun _ _ => Ready.vfs).next (first.node.vfs_truncate 0)
  refine ⟨run, fun ⟨fl, _, exclusive⟩ => ?_⟩
  obtain ⟨s₁, f, glance, trunc⟩ := first.truncated (show 0 < FCONTENT_MAX_SIZE by decide)
  generalize step firstState (.truncate (render [[97]]) 0) = s' at *
  have node := first.truncated_node glance trunc
  have rows := trunc.repaged.resized.size
  have zero := first.truncated_entry glance trunc (show 0 < 1 by decide) (by decide)
  have area := exclusive.area k node.liveFile 0 (by
    rw [node.owned.listedFile_eq FirstNode.live node.file]
    exact List.mem_map.mpr ⟨0, List.mem_range.mpr (by rw [rows]; decide), zero⟩)
  omega

end Sfs
