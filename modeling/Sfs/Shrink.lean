import Sfs.Drop
import Sfs.FirstFile
import Sfs.Overlay

namespace Sfs

/-- File `k` has been cut to its first `offset` bytes. -/
structure Shrunk (L : Set Nat) (s s' : State) (k offset : Nat) (fl : List Nat) : Prop where
  accounted : Accounted L s' (((blocksOf s.stores.pool k).drop (offset / 512 + 1)).reverse ++ fl)
  size : fsize (s'.stores.pool.cell k) = offset
  content : contentOf s'.stores k = (contentOf s.stores k).take offset
  blocks : blocksOf s'.stores.pool k = (blocksOf s.stores.pool k).take (offset / 512 + 1)
  number : freeBlockSize s'.stores.sup =
    int32 (freeBlockSize s.stores.sup + ((blocksOf s.stores.pool k).drop (offset / 512 + 1)).length)
  count : freeBlockSize s.stores.sup = fl.length → freeBlockSize s'.stores.sup =
    freeBlockSize s.stores.sup + ((blocksOf s.stores.pool k).drop (offset / 512 + 1)).length
  others : ∀ m ∈ L, m ≠ k → Untouched s s' m

variable {L : Set Nat} {s s' s₁ : State} {fl : List Nat} {k n offset len : Nat} {path : CPath}
  {c : List UInt8} {buf : Bytes}

theorem Glance.consistent (glance : Glance s s₁) (wf : Consistent L s fl) : Consistent L s₁ fl := by
  obtain ⟨owned, list, blocks, covered⟩ := wf
  rw [← glance.stores_eq] at owned list blocks covered
  exact ⟨owned, list, blocks, covered⟩

theorem Glance.wellFormed (glance : Glance s s₁) (wf : WellFormed L s fl) : WellFormed L s₁ fl := by
  refine ⟨glance.consistent wf.toConsistent, ?_⟩
  rw [glance.stores_eq]
  exact wf.count

theorem Glance.untouched (glance : Glance s s₁) {m : Nat} (untouched : Untouched s₁ s' m) : Untouched s s' m := by
  obtain ⟨inode, listing, content⟩ := untouched
  rw [glance.stores_eq] at inode listing content
  exact ⟨inode, listing, content⟩

/-- The number of blocks that `sfs_truncate` leaves. -/
theorem newBlocks_eq (small : offset < 4294967296) : int32 (offset / BLOCK_SIZE + 1 : Nat) = (offset / 512 + 1 : Nat) := by
  rw [BLOCK_SIZE, int32_of_mem (by omega) (by omega)]

theorem truncateTo_shrunk (acc : Accounted L s fl) (live : k ∈ L) (file : isdir (s.stores.pool.cell k) = 0)
    (covered : fsize (s.stores.pool.cell k) ≤ 512 * size (s.stores.pool.cell k))
    (before : offset < fsize (s.stores.pool.cell k)) (run : truncateTo s k (offset / 512 + 1) offset = s') :
    Shrunk L s s' k offset fl := by
  have fits := acc.fits k live
  rw [endOf_file file, blknumSize] at fits
  have shorter : offset / 512 + 1 ≤ size (s.stores.pool.cell k) := by omega
  have nodup := acc.blocks.nodup k live file
  obtain ⟨dropped, bytes⟩ := truncateTo_dropped acc live file shorter run
  have newSize : fsize (s'.stores.pool.cell k) = offset := by
    have max : (FCONTENT_MAX_SIZE : Int) = 4272128 := rfl
    rw [bytes, if_neg (by omega), uint32]
    omega
  have data : ∀ b ∈ (blocksOf s.stores.pool k).take (offset / 512 + 1), s'.stores.data b = s.stores.data b :=
    fun b member => dropped.data b fun gone =>
      List.disjoint_of_nodup_append (by rw [List.take_append_drop]; exact nodup.of_append_left) member gone
  have content := contentOf_prefix dropped.kept data (by omega) (by omega)
  rw [newSize] at content
  refine ⟨dropped.accounted acc live file shorter, newSize, content, dropped.kept, dropped.number, fun counted => ?_,
    fun m live' ne => dropped.untouched acc live file live' ne⟩
  have bound := dropped.list.length_le
  rw [List.length_append, List.length_reverse] at bound
  rw [dropped.number, counted, int32_of_mem (by omega) (by omega)]

theorem sfsTruncate_shrunk (acc : Accounted L s fl) (live : k ∈ L) (file : isdir (s.stores.pool.cell k) = 0)
    (covered : fsize (s.stores.pool.cell k) ≤ 512 * size (s.stores.pool.cell k))
    (found : (pathToInum s path).1.inum = k) (before : offset < fsize (s.stores.pool.cell k)) :
    Shrunk L s (sfsTruncate s path offset).2 k offset fl := by
  have glance := pathToInum_glance s path
  have range := acc.marked.node_range live
  have fits := acc.fits k live
  rw [endOf_file file, blknumSize] at fits
  generalize after : (pathToInum s path).2 = s₁ at glance
  have same := glance.stores_eq
  have offsetIs : int32 offset = offset := int32_of_mem (by omega) (by omega)
  rw [sfsTruncate_eq found after (by omega) (newBlocks_eq (by omega)), offsetIs]
  generalize run : truncateTo s₁ k (offset / 512 + 1) offset = s'
  have shrunk := truncateTo_shrunk (acc.of_stores same) live (by rw [same]; exact file) (by rw [same]; exact covered)
    (by simp only [same]; exact before) run
  obtain ⟨accounted, size, content, blocks, number, count, others⟩ := shrunk
  rw [same] at accounted content blocks number count
  exact ⟨accounted, size, content, blocks, number, count, fun m live' ne => glance.untouched (others m live' ne)⟩

/-- `sfs_truncate` to a smaller size keeps the first bytes of the file and
gives back the blocks past them. Only this file has to have blocks for all its bytes. -/
theorem sfsTruncate_shrink (acc : Accounted L s fl) (live : k ∈ L) (file : isdir (s.stores.pool.cell k) = 0)
    (covered : fsize (s.stores.pool.cell k) ≤ 512 * size (s.stores.pool.cell k))
    (found : (pathToInum s path).1.inum = k) (before : offset < fsize (s.stores.pool.cell k)) :
    (sfsTruncate s path offset).1 = 0 ∧ Shrunk L s (sfsTruncate s path offset).2 k offset fl :=
  ⟨sfsTruncate_fst offset found, sfsTruncate_shrunk acc live file covered found before⟩

/-- A first write to a new file. -/
theorem FirstFile.written (buf : Bytes) (first : FirstFile s k c) (limit : len ≤ FCONTENT_MAX_SIZE) :
    ∃ fl', Good (step s (.write (render [c]) buf len 0)) (insert k {2}) fl' ∧
      WellFormed (insert k {2}) (step s (.write (render [c]) buf len 0)) fl' ∧
      child (step s (.write (render [c]) buf len 0)).stores.pool 2 c = some k ∧
      isdir ((step s (.write (render [c]) buf len 0)).stores.pool.cell k) = 0 ∧
      fsize ((step s (.write (render [c]) buf len 0)).stores.pool.cell k) = len ∧
      size ((step s (.write (render [c]) buf len 0)).stores.pool.cell k) = lastBlock 0 len ∧
      ∀ i, len ≤ i → i < 512 * lastBlock 0 len → (step s (.write (render [c]) buf len 0)).stores.data
        (blockNo (step s (.write (render [c]) buf len 0)).stores.pool k (i / 512)) (i % 512) = 0 := by
  have glance := pathToInum_glance s (render [c])
  have max : FCONTENT_MAX_SIZE = 4272128 := rfl
  rw [step, Op.run, sfsWrite_eq first.found rfl, int32_of_mem (x := len) (by omega) (by omega),
    int32_of_mem (x := (0 : Nat)) (by omega) (by omega)]
  generalize (pathToInum s (render [c])).2 = s₁ at *
  have same := glance.stores_eq
  have stop : lastBlock 0 len ≤ 8344 := lastBlock_le (by omega)
  have rows := first.rows
  have file := first.file
  have spare := first.spare
  have bytes := first.bytes
  have leads := first.leads
  have good := first.good.glance glance
  rw [← same] at rows file spare bytes leads
  have live : k ∈ insert k ({2} : Set Nat) := FirstFile.live
  have pages := pageCount_le (blknumSize * Max.max 0 (lastBlock 0 len)) (blknumSize * 0)
  obtain ⟨taken, fl', stored, wf, errno, result⟩ := fstreamWrite_stored buf
    (glance.consistent first.wellFormed.toConsistent) live file (show 0 / 512 ≤ _ from Nat.zero_le _)
    (show 0 + len ≤ FCONTENT_MAX_SIZE by omega) (by rw [List.length_range']; omega) (by rw [rows, spare]; omega)
  replace result := result good.errno
  generalize fstreamWrite s₁ k buf len (0 : Nat) = o at *
  rw [afterWrite, if_neg (by omega)]
  have step := stored.fileStep
  have file' : isdir (o.2.stores.pool.cell k) = 0 := by rw [step.isdir_eq good live live, file]
  obtain ⟨g, repaged⟩ := stored.repaged
  have rows' : size (o.2.stores.pool.cell k) = lastBlock 0 len := by
    rw [repaged.resized.size, rows, Nat.max_eq_left (Nat.zero_le _)]
  refine ⟨fl', step.good good live file errno, ⟨wf, stored.count good.count⟩, ?_, file', ?_, rows', fun i past before => ?_⟩
  · rw [step.child_eq good live file good.tree.root, leads]
  · rw [stored.fsize_eq (by omega), bytes]
    omega
  · rw [stored.byte wf live file' (show 0 / 512 ≤ _ from Nat.zero_le _) le_rfl (by rw [rows']; exact before),
      if_neg (by omega), if_neg (by omega)]

/-- The file `/a` of 600 bytes is cut to 100. -/
theorem sfsTruncate_shrink_first : ∃ k fl,
    fsize ((step firstState (.write (render [[97]]) Bytes.zero 600 0)).stores.pool.cell k) = 600 ∧
    (sfsTruncate (step firstState (.write (render [[97]]) Bytes.zero 600 0)) (render [[97]]) (100 : Nat)).1 = 0 ∧
    Shrunk {k, 2} (step firstState (.write (render [[97]]) Bytes.zero 600 0))
      (sfsTruncate (step firstState (.write (render [[97]]) Bytes.zero 600 0)) (render [[97]]) (100 : Nat)).2 k 100 fl := by
  obtain ⟨k, first⟩ := firstState_firstFile
  have max : (600 : Nat) ≤ FCONTENT_MAX_SIZE := by decide
  obtain ⟨fl, good, wf, leads, file, bytes, _⟩ := first.written Bytes.zero max
  generalize step firstState (.write (render [[97]]) Bytes.zero 600 0) = s at *
  exact ⟨k, fl, bytes, sfsTruncate_shrink wf.accounted FirstFile.live file (wf.covered k FirstFile.live file)
    (good.found_top first.plain leads) (by rw [bytes]; omega)⟩

end Sfs
