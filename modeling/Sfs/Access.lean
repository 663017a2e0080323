import Sfs.FileStep
import Sfs.Lookup

namespace Sfs

variable {L : Set Nat} {s s' : State} {fl : List Nat} {k n offset len : Nat} {c tail : List UInt8} {w : Walk}
  {path : CPath} {buf : Bytes}

theorem glance_setD (s : State) (d : Bytes) : Glance s { s with d } := rfl

theorem dnodeListing_glance (s : State) (k : Nat) : Glance s (dnodeListing s k).2 := by
  simp only [dnodeListing]
  exact glance_setD s _

/-! Looking up any path, in any state, only fills the listing buffer. -/

theorem pathToInumElem_glance : Glance s (pathToInumElem s c k).2 := by
  rw [pathToInumElem]
  split
  · exact .refl s
  · split
    · exact .refl s
    · have listed := dnodeListing_glance s k
      generalize dnodeListing s k = l at *
      exact listed.trans (.of_fault _)

theorem pathWalk_glance (tail : List UInt8) : Glance s (pathWalk s w tail).2 := by
  induction tail generalizing s w with
  | nil => exact .refl s
  | cons c tail ih =>
    rw [pathWalk]
    split
    · have step := pathToInumElem_glance (s := s) (c := w.head) (k := ushort w.inum)
      generalize pathToInumElem s w.head (ushort w.inum) = found at *
      exact step.trans ih
    · exact ih

theorem pathToInum_glance (s : State) (path : CPath) : Glance s (pathToInum s path).2 := by
  rw [pathToInum]
  have start := Glance.of_fault (s := s) (decide (path.length ≥ PATH_MAX))
  generalize s.fault (decide (path.length ≥ PATH_MAX)) = t at *
  have walked := pathWalk_glance (s := t) (w := ⟨2, []⟩)
    ((if path.getLast? = some slash then path.dropLast else path).drop 1)
  generalize pathWalk t ⟨2, []⟩ _ = u at *
  split
  · have step := pathToInumElem_glance (s := u.2) (c := u.1.head) (k := ushort u.1.inum)
    generalize pathToInumElem u.2 u.1.head (ushort u.1.inum) = found at *
    exact start.trans (walked.trans step)
  · exact start.trans walked

theorem stores_errnoPop (s : State) : (errnoPop s).2.stores = s.stores := stores_congr rfl

theorem stores_errnoPush (s : State) (err : Int) : (errnoPush s err).stores = s.stores := stores_congr rfl

/-- What `sfs_write` does with the result of `fstream_write`. -/
def afterWrite (written : Int × State) : Int × State :=
  if written.1 < 0 then
    (written.1, (errnoPop (freeBlockPop (errnoPop (freeInodePop written.2).2).2).2).2)
  else written

theorem sfsWrite_eq {s₁ : State} (found : (pathToInum s path).1.inum = k) (after : (pathToInum s path).2 = s₁) :
    sfsWrite s path buf len offset = afterWrite (fstreamWrite s₁ k buf (int32 len) (int32 offset)) := by
  have positive : ¬ (k : Int) < 0 := by omega
  simp only [sfsWrite, found, after, positive, if_false, afterWrite]

/-- `sfs_truncate` on a file that the path leads to. -/
theorem sfsTruncate_eq {s₁ : State} (found : (pathToInum s path).1.inum = k) (after : (pathToInum s path).2 = s₁)
    (small : k < 65536) (newSize : int32 (offset / BLOCK_SIZE + 1 : Nat) = n) :
    sfsTruncate s path offset = (0, truncateTo s₁ k n (int32 offset)) := by
  have positive : ¬ (k : Int) < 0 := by omega
  simp only [sfsTruncate, found, after, newSize, positive, if_false, ushort_nat small, truncateTo]

/-- `sfs_truncate` reports no error. -/
theorem sfsTruncate_fst (offset : Nat) (found : (pathToInum s path).1.inum = k) : (sfsTruncate s path offset).1 = 0 := by
  have positive : ¬ (k : Int) < 0 := by omega
  simp only [sfsTruncate, found, positive, if_false]

end Sfs
