import Sfs.ListingSet

namespace Sfs

/-- The listing buffers and the static copy of the superblock are as before. -/
structure Aside (s s' : State) : Prop where
  d : s'.d = s.d
  f : s'.f = s.f
  superBlockBuf : s'.superBlockBuf = s.superBlockBuf

variable {s s' : State} {buf inode x : Bytes} {ptrEnd cacheEnd ptr i k n o entry : Nat} {newsize : Int}

theorem blockWrite_aside (s : State) (b : Int) (x : Bytes) : Aside s (blockWrite s b x) := by
  unfold blockWrite
  split <;> exact ⟨rfl, rfl, rfl⟩

theorem aside_steps : Steps Aside where
  refl _ := ⟨rfl, rfl, rfl⟩
  trans first second := ⟨second.d.trans first.d, second.f.trans first.f, second.superBlockBuf.trans first.superBlockBuf⟩
  dump s inum x := by
    simp only [inodeDump]
    split
    · exact ⟨rfl, rfl, rfl⟩
    · exact ⟨(blockWrite_aside ..).d, (blockWrite_aside ..).f, (blockWrite_aside ..).superBlockBuf⟩
  pop s := by
    unfold freeInodePop
    split
    · exact ⟨(blockWrite_aside ..).d, (blockWrite_aside ..).f, (blockWrite_aside ..).superBlockBuf⟩
    · exact ⟨rfl, rfl, rfl⟩
  push s q := by
    simp only [freeInodePush]
    split
    · exact ⟨rfl, rfl, rfl⟩
    · exact ⟨(blockWrite_aside ..).d, (blockWrite_aside ..).f, (blockWrite_aside ..).superBlockBuf⟩

/-! The loops set page numbers only, which come after the entries. -/

theorem setPages_apply (inside : o < 112) : (setPages buf ptrEnd cacheEnd s inode ptr i n).2 o = inode o := by
  induction n generalizing s inode ptr i with
  | zero => rfl
  | succ n ih =>
    have number : ∀ v, setPnum inode i v o = inode o := fun v => Bytes.put16_apply_of_ne (by omega)
    simp only [setPages]
    split
    · exact ih
    · split
      · rw [ih, number]
      · exact ih

theorem setIndex_apply (inside : o < 112) : (setIndex buf ptrEnd cacheEnd s inode ptr i n).2 o = inode o := by
  induction n generalizing s inode ptr i with
  | zero => rfl
  | succ n ih =>
    have number : ∀ v, setExPnum inode i v o = inode o := fun v => Bytes.put16_apply_of_ne (by omega)
    simp only [setIndex]
    split
    · split <;> exact ih
    · split
      · rw [ih, number]
      · exact ih

theorem inodeLoad_inodeDump (within : k < 65536) : inodeLoad (inodeDump s k x) k = x.take 128 := by
  rw [inodeLoad_window within, inodeDump_eq within]
  dsimp only
  rw [Bytes.window_copy_self]
  simp only [Bytes.window, Nat.zero_add]

/-- The inode after its listing has been set, whatever became of the pages:
it is written last, under its own number. -/
theorem listingSet_inode (within : k < 65536) (own : ino (inodeLoad s k) = k) (inside : o < 112) :
    inodeLoad (listingSet entry buf s k newsize) k o =
      ((setSize (inodeLoad s k) (ushort newsize)).copy 16 buf 0 96) o := by
  generalize finalIs : listingSet entry buf s k newsize = s'
  generalize loaded : inodeLoad s k = y at own ⊢
  simp only [listingSet, loaded] at finalIs
  generalize headIs : (setSize y (ushort newsize)).copy 16 buf 0 96 = x at finalIs ⊢
  generalize allIs : setIndex _ _ _ _ _ _ _ _ = all at finalIs
  have bytes : ∀ a < 112, all.2 a = x a := fun a ha => by rw [← allIs, setIndex_apply ha, setPages_apply ha]
  have ownAll : ino all.2 = k := by
    rw [← own]
    refine Bytes.get16_congr ?_ ?_ <;> rw [bytes _ (by omega), ← headIs] <;> exact copy_header_apply (by omega)
  rw [ownAll] at finalIs
  rw [← finalIs, inodeLoad_inodeDump within, Bytes.take_apply_of_lt (by omega), bytes o inside]

section

variable (within : k < 65536) (own : ino (inodeLoad s k) = k)

include within own

theorem listingSet_header (inside : o < 16) (apart : o ≠ 4 ∧ o ≠ 5) :
    inodeLoad (listingSet entry buf s k newsize) k o = inodeLoad s k o := by
  rw [listingSet_inode within own (by omega)]
  exact copy_header_apply (by omega)

theorem listingSet_size : size (inodeLoad (listingSet entry buf s k newsize) k) = ushort newsize := by
  have small : ushort newsize < 65536 := by simp only [ushort]; omega
  have same : size (inodeLoad (listingSet entry buf s k newsize) k) =
      size (setSize (inodeLoad s k) (ushort newsize)) := by
    refine Bytes.get16_congr ?_ ?_ <;> rw [listingSet_inode within own (by omega)] <;>
      exact Bytes.copy_apply_of_not_mem (by omega)
  rw [same, size, setSize, Bytes.get16_put16_self, Nat.mod_eq_of_lt small]

theorem listingSet_ino : ino (inodeLoad (listingSet entry buf s k newsize) k) = k :=
  (Bytes.get16_congr (listingSet_header within own (by omega) (by omega))
    (listingSet_header within own (by omega) (by omega))).trans own

theorem listingSet_nlink : nlink (inodeLoad (listingSet entry buf s k newsize) k) = nlink (inodeLoad s k) :=
  Bytes.get16_congr (listingSet_header within own (by omega) (by omega))
    (listingSet_header within own (by omega) (by omega))

end

end Sfs
