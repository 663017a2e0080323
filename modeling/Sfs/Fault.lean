import Sfs.FileStep

namespace Sfs

/-- An index that has left its array stays on record. -/
def Faulted (s s' : State) : Prop := s.ub = true → s'.ub = true

variable {L : Set Nat} {s s' t : State} {k i n inum : Nat} {b v newBSize : Int} {x : Bytes} {buff : Option Bytes}

namespace Faulted

theorem of_eq (same : s'.ub = s.ub) : Faulted s s' := fun bad => same.trans bad

theorem trans (first : Faulted s t) (second : Faulted t s') : Faulted s s' := fun bad => second (first bad)

theorem fault (bad : Bool) : Faulted s (s.fault bad) := fun before => by rw [State.fault, before, Bool.true_or]

end Faulted

theorem blockWrite_ub (s : State) (b : Int) (x : Bytes) : (blockWrite s b x).ub = s.ub := by
  unfold blockWrite
  split <;> rfl

theorem inodeDump_ub (s : State) (inum : Int) (x : Bytes) : (inodeDump s inum x).ub = s.ub := by
  simp only [inodeDump]
  split
  · rfl
  · exact blockWrite_ub _ _ _

theorem freeInodePop_ub (s : State) : (freeInodePop s).2.ub = s.ub := by
  unfold freeInodePop
  split
  · exact blockWrite_ub _ _ _
  · rfl

theorem faulted_steps : Steps Faulted where
  refl _ := id
  trans := Faulted.trans
  dump _ _ _ := .of_eq (inodeDump_ub _ _ _)
  pop _ := .of_eq (freeInodePop_ub _)
  push s q := by
    rw [freeInodePush]
    split
    · exact id
    · exact Faulted.trans (.of_eq (blockWrite_ub _ _ _)) (.fault _)

theorem buffers_ub (s : State) (x y : Bytes) : ({ s with blockBuf := x, superBlockBuf := y } : State).ub = s.ub := rfl

theorem freeBlockUnlink_ub (s : State) (b : Int) : (freeBlockUnlink s b).ub = s.ub := by
  have same := congrArg State.ub (freeBlockUnlink_eq (s := s) b)
  exact same.trans (superblockWrite_ub.trans (buffers_ub s _ _))

theorem note_ub (s : State) (call : Call) : (s.note call).ub = s.ub := rfl

theorem errnoPush_ub (s : State) (err : Int) : (errnoPush s err).ub = s.ub := rfl

theorem superblockRead_ub (s : State) : (superblockRead s).ub = s.ub := buffers_ub s _ _

theorem freeBlockAllocate_ub (s : State) : (freeBlockAllocate s buff).2.ub = s.ub := by
  unfold freeBlockAllocate
  refine (note_ub _ _).trans ?_
  split
  · rw [blockWrite_ub, freeBlockUnlink_ub, superblockRead_ub]
  · rw [errnoPush_ub, superblockRead_ub]

theorem freeBlockPop_ub (s : State) : (freeBlockPop s).2.ub = s.ub := by
  unfold freeBlockPop
  refine (note_ub _ _).trans ?_
  split
  · rw [freeBlockUnlink_ub, superblockRead_ub]
  · rw [errnoPush_ub, superblockRead_ub]

theorem freeBlockInitLoop_ub (s : State) (i n : Nat) : (freeBlockInitLoop s i n).ub = s.ub := by
  induction n generalizing s i with
  | zero => rfl
  | succ n ih =>
    have link : (freeBlockLink s i).ub = s.ub := by rw [freeBlockLink, freeblockWrite, blockWrite_ub]
    rw [freeBlockInitLoop, List.range'_succ, List.foldl_cons]
    exact (ih _ _).trans link

theorem inodeInitLoop_ub (s : State) (n : Nat) : (inodeInitLoop s n).ub = s.ub := by
  induction n generalizing s with
  | zero => rfl
  | succ n ih =>
    rw [inodeInitLoop, Function.iterate_succ_apply]
    exact (ih _).trans (freeBlockPop_ub s)

/-- `sfs_init` leaves no array. -/
theorem sfsInit_ub (disk : Bytes) : (sfsInit disk).ub = false := by
  have boxed : (freeBlockInit (boot disk)).ub = false := by
    simp only [freeBlockInit, freeblockWrite, blockWrite_ub, freeBlockInitLoop_ub, superblockWrite_ub, boot]
  rw [sfsInit, inodeInit, dnodeInit, inodeDump_ub, blockWrite_ub, freeBlockPop_ub, inodeInitLoop_ub, boxed]

theorem freeBlockPush_ub (s : State) : (freeBlockPush s b).ub = s.ub := by
  simp only [freeBlockPush, superblockWrite_ub, freeblockWrite, blockWrite_ub, superblockRead_ub]

theorem fSet_ub (s : State) (i b : Int) : (fSet s i b).ub = (s.ub || fBad i) := by
  rw [fSet]
  cases bad : fBad i <;> simp [State.fault]

theorem growBlocks_faulted {i : Int} : Faulted s (growBlocks s i n) := by
  induction n generalizing s i with
  | zero => exact id
  | succ n ih =>
    refine Faulted.trans (fun bad => ?_) ih
    rw [fSet_ub, freeBlockAllocate_ub, bad, Bool.true_or]

/-- The loop leaves the array `f` when it has more than `FENTRY_MAX_SIZE` entries to fill. -/
theorem growBlocks_overflow (start : i ≤ 8344) (stop : 8344 < i + n) : (growBlocks s i n).ub = true := by
  induction n generalizing s i with
  | zero => omega
  | succ n ih =>
    rw [growBlocks]
    by_cases last : i = 8344
    · refine growBlocks_faulted ?_
      rw [fSet_ub, last]
      exact Bool.or_true _
    · have next : (i : Int) + 1 = ((i + 1 : Nat) : Int) := by omega
      rw [next]
      exact ih (by omega) (by omega)

theorem freeBlocks_faulted {i : Int} : Faulted s (freeBlocks s i n) := by
  induction n generalizing s i with
  | zero => exact id
  | succ n ih => exact (Faulted.of_eq (freeBlockPush_ub s)).trans ((Faulted.fault _).trans ih)

theorem setF_ub (s : State) (f : Bytes) : ({ s with f } : State).ub = s.ub := rfl

theorem fnodeListing_ub (s : State) (inum : Nat) : (fnodeListing s inum).2.ub = s.ub := by
  unfold fnodeListing
  exact setF_ub s _

theorem fnodeListingSet_faulted {newsize : Int} : Faulted s (fnodeListingSet s inum newsize) := by
  rw [fnodeListingSet]
  split
  · exact Faulted.trans (.of_eq (errnoPush_ub _ _)) faulted_steps.listingSet
  · exact faulted_steps.listingSet

theorem fstreamFree_faulted {inum : Int} : Faulted s (fstreamFree s inum newBSize) := by
  simp only [fstreamFree]
  refine Faulted.trans ?_ fnodeListingSet_faulted
  exact Faulted.trans (.of_eq (fnodeListing_ub _ _)) freeBlocks_faulted

theorem trimTo_faulted : Faulted s (trimTo s k n v) := by
  rw [trimTo, inodeSetAttrUpc]
  exact (fstreamFree_faulted.trans fnodeListingSet_faulted).trans (.of_eq (inodeDump_ub _ _ _))

theorem truncateTo_faulted : Faulted s (truncateTo s k n v) :=
  (Faulted.trans (.of_eq (fnodeListing_ub _ _)) growBlocks_faulted).trans trimTo_faulted

/-- A file cannot be given more than `FENTRY_MAX_SIZE` blocks. -/
theorem truncateTo_overflow (owned : Owned L s.stores.pool) (live : k ∈ L) (file : isdir (s.stores.pool.cell k) = 0)
    (beyond : 8344 < n) : (truncateTo s k n v).ub = true := by
  obtain ⟨f, listed, _⟩ := owned.fnodeListing_spec live file
  have fits := owned.fits k live
  rw [endOf_file file, blknumSize] at fits
  have count : ((n : Int) - (size (s.stores.pool.cell k) : Nat)).toNat = n - size (s.stores.pool.cell k) := by omega
  simp only [truncateTo, listed, count]
  exact trimTo_faulted (growBlocks_overflow (by omega) (by omega))

end Sfs
