import Sfs.Ledger

namespace Sfs

variable {N : Finset Nat} {s : State} {fl : List Nat} {k n : Nat} {c : List UInt8} {ops : List Op} {disk : Bytes}

namespace Counted

variable (counted : Counted s N fl)

include counted

/-- Where the inodes add up, none is left out. -/
theorem nodeCover (total : inodesHeld s.stores.pool N = 1022) : NodeCover (N : Set Nat) s.stores.pool := by
  have good := counted.good
  have lengths : ∑ k ∈ N, (inodesOf s.stores.pool k).length = ∑ k ∈ N, (1 + pagesOf (endOf (s.stores.pool.cell k))) :=
    Finset.sum_congr rfl fun k _ => length_inodesOf
  have whole : (freeInodes s.stores.pool).length + ∑ k ∈ N, (inodesOf s.stores.pool k).length = (Finset.Ico 2 1024).card := by
    rw [lengths, length_freeInodes, Nat.card_Ico]
    exact total
  have cover := Partition.cover_of_length (fun n isFree => ?_) (fun k live n held => ?_) (List.nodup_range.filter _)
    (fun k live => good.inodesOf_nodup live) (fun k live k' live' ne => good.inodesOf_apart live live' ne) whole
  · intro n lower upper used
    rcases cover n (Finset.mem_Ico.mpr ⟨lower, upper⟩) with isFree | ⟨k, live, held⟩
    · rw [(mem_freeInodes.mp isFree).2] at used
      exact absurd used.symm Bool.false_ne_true
    · exact ⟨k, live, mem_inodesOf.mp held⟩
  · obtain ⟨upper, isFree⟩ := mem_freeInodes.mp isFree
    exact Finset.mem_Ico.mpr ⟨good.owned.low n isFree, upper⟩
  · obtain ⟨lower, upper, _⟩ := good.inodesOf_range live held
    exact Finset.mem_Ico.mpr ⟨lower, upper⟩

/-- Where the blocks add up, none is left out. -/
theorem blockCover (total : blocksHeld s.stores.pool fl N = 31743) : BlockCover (N : Set Nat) s.stores.pool fl := by
  have good := counted.good
  have sums := Finset.sum_filter (s := N) (fun k => isdir (s.stores.pool.cell k) = 0) fun k => (blocksOf s.stores.pool k).length
  have whole : fl.length + ∑ k ∈ N with isdir (s.stores.pool.cell k) = 0, (blocksOf s.stores.pool k).length =
      (Finset.Ico 1025 32768).card := by
    rw [sums, Nat.card_Ico]
    exact total
  have cover := Partition.cover_of_length (fun b isFree => ?_) (fun k member b held => ?_) good.list.nodup
    (fun k member => ?_) (fun k member k' member' ne => ?_) whole
  · intro b lower upper
    rcases cover b (Finset.mem_Ico.mpr ⟨lower, upper⟩) with isFree | ⟨k, member, held⟩
    · exact Or.inl isFree
    · obtain ⟨live, file⟩ := Finset.mem_filter.mp member
      exact Or.inr ⟨k, live, file, held⟩
  · exact Finset.mem_Ico.mpr (good.list.area b isFree)
  · obtain ⟨live, file⟩ := Finset.mem_filter.mp member
    exact Finset.mem_Ico.mpr (good.blocks.area k live file b held)
  · obtain ⟨live, file⟩ := Finset.mem_filter.mp member
    exact good.blocks.nodup k live file
  · obtain ⟨live, file⟩ := Finset.mem_filter.mp member
    obtain ⟨live', file'⟩ := Finset.mem_filter.mp member'
    exact good.blocks.apart k live k' live' file file' ne

/-- No inode is lost exactly where they add up. -/
theorem inodesKept_iff : InodesKept s ↔ inodeTotal s = 1022 := by
  constructor
  · rintro ⟨_, nodes, members, total⟩
    have same : nodes = treeNodes s := by
      rw [counted.treeNodes_eq]
      ext k
      rw [members, counted.good.inTree_iff counted.reachable, Finset.mem_coe]
    rw [same] at total
    exact total
  · intro total
    exact counted.good.inodesKept counted.reachable (counted.nodeCover (counted.inodeTotal_eq ▸ total))

/-- No block is lost exactly where they add up. -/
theorem blocksKept_iff : BlocksKept s ↔ blockTotal s = 31743 := by
  have good := counted.good
  have reachable : Reachable False (N : Set Nat) s := fun k live _ => counted.reachable k live (Or.inr trivial)
  constructor
  · rintro ⟨_, _, _, files, members, total⟩
    have same : files = N.filter fun k => isdir (s.stores.pool.cell k) = 0 := by
      ext k
      rw [members, good.liveFile_iff reachable, Finset.mem_filter, Finset.mem_coe]
    have sums : ∑ k ∈ files, (listedFile s k).length = ∑ k ∈ N, fileBlocks s.stores.pool k := by
      rw [same, Finset.sum_filter]
      refine Finset.sum_congr rfl fun k live => ?_
      by_cases file : isdir (s.stores.pool.cell k) = 0
      · rw [if_pos file, fileBlocks_file file, good.owned.listedFile_eq live file]
      · rw [if_neg file, fileBlocks_dir file]
    rw [counted.blockTotal_eq, blocksHeld]
    rw [sums, good.count] at total
    omega
  · intro total
    exact good.blocksKept reachable (counted.blockCover (counted.blockTotal_eq ▸ total))

end Counted

/-- In a run of permitted requests no inode is missing exactly if no request has lost one. -/
theorem run_inodesKept_iff (run : Run step Permit (sfsInit disk) ops s) :
    InodesKept s ↔ Run.spent step lostInodes (sfsInit disk) ops = 0 := by
  obtain ⟨⟨N, fl, counted⟩, inodes, _⟩ := run_totals run
  rw [counted.inodesKept_iff]
  omega

/-- A first write has the blocks that it needs. -/
theorem FirstFile.lost_write (first : FirstFile s k c) (buf : Bytes) : lostInodes s (.write (render [c]) buf 600 0) = 0 := by
  have blocks : spareBlocks s = 31743 := by
    rw [spareBlocks, first.good.count, List.length_range']
    rfl
  have stop : min (lastBlock (int32 (0 : Nat)).toNat (int32 (600 : Nat)).toNat) 8344 = 2 := by decide
  simp only [lostInodes, blocks, stop]
  rw [if_neg (by omega)]

/-- The run that makes `/a` and writes to it loses nothing. -/
theorem run_written : Run step Permit (sfsInit Bytes.zero)
      [.create (render [[97]]) Bytes.zero, .write (render [[97]]) Bytes.zero 600 0]
      (step firstState (.write (render [[97]]) Bytes.zero 600 0)) ∧
    Run.spent step lostInodes (sfsInit Bytes.zero)
      [.create (render [[97]]) Bytes.zero, .write (render [[97]]) Bytes.zero 600 0] = 0 := by
  obtain ⟨k, first⟩ := firstState_firstFile
  have made : Run step Permit (sfsInit Bytes.zero) [.create (render [[97]]) Bytes.zero] firstState :=
    .next .nil ready_first.permit
  have lost := first.lost_write Bytes.zero
  have same : step (sfsInit Bytes.zero) (.create (render [[97]]) Bytes.zero) = firstState := rfl
  have created : lostInodes (sfsInit Bytes.zero) (.create (render [[97]]) Bytes.zero) = 0 := rfl
  refine ⟨made.next (first.ready_write Bytes.zero).permit, ?_⟩
  rw [Run.spent, Run.spent, Run.spent, same, lost, created]

theorem run_inodesKept_iff_written : InodesKept (step firstState (.write (render [[97]]) Bytes.zero 600 0)) :=
  (run_inodesKept_iff run_written.1).mpr run_written.2

/-- The directory `/a` is made and removed, and its inode is marked used for good. -/
theorem rmdir_loses_inode :
    Run step Vfs (sfsInit Bytes.zero) [.mkdir (render [[97]]) Bytes.zero, .rmdir (render [[97]]) Bytes.zero] removedState ∧
      ¬ InodesKept removedState := by
  obtain ⟨run, lost⟩ := run_removed
  obtain ⟨⟨N, fl, counted⟩, inodes, _⟩ := run_totals run
  refine ⟨run.mono fun _ _ => Permit.vfs, fun kept => ?_⟩
  have all := counted.inodesKept_iff.mp kept
  omega

/-- In a run of permitted requests no block is missing exactly if no request has lost one. -/
theorem run_blocksKept_iff (run : Run step Permit (sfsInit disk) ops s) :
    BlocksKept s ↔ Run.spent step lostBlocks (sfsInit disk) ops = 0 := by
  obtain ⟨⟨N, fl, counted⟩, _, blocks⟩ := run_totals run
  rw [counted.blocksKept_iff]
  omega

theorem run_blocksKept_iff_written : BlocksKept (step firstState (.write (render [[97]]) Bytes.zero 600 0)) :=
  (run_blocksKept_iff run_written.1).mpr rfl

/-- Setting the size of the empty file `/a` to 0 takes block 1025 off the free list, and nothing leads to it. -/
theorem truncate_loses_block :
    Run step Vfs (sfsInit Bytes.zero) [.create (render [[97]]) Bytes.zero, .truncate (render [[97]]) 0]
      (step firstState (.truncate (render [[97]]) 0)) ∧
    ¬ BlocksKept (step firstState (.truncate (render [[97]]) 0)) := by
  obtain ⟨k, first⟩ := firstState_firstFile
  have run := (run_first.mono fun _ _ => Ready.vfs).next (first.node.vfs_truncate 0)
  refine ⟨run, fun ⟨fl, list, cover, _⟩ => ?_⟩
  obtain ⟨s₁, f, glance, trunc⟩ := first.truncated (show 0 < FCONTENT_MAX_SIZE by decide)
  generalize step firstState (.truncate (render [[97]]) 0) = s' at *
  have node := first.truncated_node glance trunc
  have rows := trunc.repaged.resized.size
  have zero := first.truncated_entry glance trunc (show 0 < 1 by decide) (by decide)
  have none : size (s₁.stores.pool.cell k) = 0 := by rw [glance.stores_eq, first.rows]
  have list' := trunc.list
  have nothing : blocksOf s₁.stores.pool k = [] := by rw [blocksOf, none]; rfl
  rw [none, nothing, List.drop_nil, List.reverse_nil, List.nil_append] at list'
  obtain rfl := list.unique list'
  rcases cover 1025 le_rfl (by decide) with isFree | ⟨j, found, member⟩
  · have dropped : (List.range' 1025 31743).drop (0 / 512 + 1 - 0) = List.range' 1026 31742 := List.drop_range'
    rw [dropped, List.mem_range'_1] at isFree
    omega
  · obtain ⟨live, file⟩ := node.tree.liveFile node.owned found
    obtain rfl : j = k := by
      rcases live with rfl | rfl
      · rfl
      · exact absurd file node.tree.top.dir
    rw [node.owned.listedFile_eq live file, blocksOf, rows] at member
    obtain ⟨i, within, number⟩ := List.mem_map.mp member
    obtain rfl : i = 0 := by
      have := List.mem_range.mp within
      omega
    rw [zero] at number
    exact absurd number (by decide)

end Sfs
