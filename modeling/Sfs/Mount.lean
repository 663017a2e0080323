import Sfs.Good
import Sfs.Stack

namespace Sfs

/-- The file system right after it has been mounted. -/
structure Formatted (s : State) : Prop where
  list : FreeChain s (List.range' 1025 (MAX_BLOCK_NUM - 1025))
  count : freeBlockSize s.superBlockBuf = 31743
  bitmap : ∀ q < INODE_BLK_SIZE, bitAt (blockRead s INODE_BLK_SIZE) q = decide (3 ≤ q)
  root : isdir (inodeLoad s 2) = 1 ∧ size (inodeLoad s 2) = 2 ∧ nlink (inodeLoad s 2) = 2
  noPages : ∀ i < 4, pnum (inodeLoad s 2) i = 0 ∧ exPnum (inodeLoad s 2) i = 0
  entries : (dnodeListing s 2).1 = 2 ∧ ∀ i < 2, diEntInum (diEnt (dnodeListing s 2).2.d i) = 2 ∧
    Bytes.chars (dnodeListing s 2).2.d (diEntSize * i) 14 = if i = 0 then [46] else [46, 46]

variable {s : State} {fl : List Nat} {q m i j : Nat} {c : List UInt8} {disk : Bytes}

/-- A chain of data blocks in the stores is a chain on the disk. -/
theorem FreeList.freeChain (list : FreeList s.stores fl) : FreeChain s fl := by
  rw [FreeChain, freeBlockHead_block]
  refine list.chain.congr fun b member => ?_
  have area := list.area b member
  rw [blockRead_data area.1 (by omega)]

theorem nlink_dnodeImage : nlink (dnodeImage q m) = 2 := by
  have byte : ∀ o < 8, dnodeImage q m o = setNlink (setSize ((Bytes.zero.put16 0 q).put16 2 m) 2) 2 o :=
    fun o ho => dnodeImage_header (by omega)
  have same : nlink (dnodeImage q m) = nlink (setNlink (setSize ((Bytes.zero.put16 0 q).put16 2 m) 2) 2) :=
    Bytes.get16_congr (byte 6 (by omega)) (byte 7 (by omega))
  rw [same, nlink, setNlink, Bytes.get16_put16_self]

theorem dnodeImage_tail (past : 48 ≤ i) : dnodeImage q m i = 0 := by
  have zero : ∀ o, (Bytes.zero : Bytes) o = 0 := fun _ => rfl
  rw [dnodeImage, Bytes.copy_apply_of_not_mem (by omega), Bytes.copy_apply_of_not_mem (by omega),
    Bytes.copy_apply_of_not_mem (by omega), setNlink, Bytes.put16_apply_of_ne (by omega), setSize,
    Bytes.put16_apply_of_ne (by omega), Bytes.put16_apply_of_ne (by omega), Bytes.put16_apply_of_ne (by omega), zero]

theorem dnodeImage_get16_tail (past : 48 ≤ i) : (dnodeImage q m).get16 i = 0 := by
  rw [← Bytes.get16_zero (a := i)]
  exact Bytes.get16_congr (dnodeImage_tail past) (dnodeImage_tail (by omega))

/-- Where the two entries of a new directory lead. -/
theorem get16_dnodeImage : (dnodeImage q m).get16 30 = q % 65536 ∧ (dnodeImage q m).get16 46 = m % 65536 := by
  constructor
  · rw [← get16_diEntC (Bytes.cstr [46] Bytes.zero)]
    exact Bytes.get16_congr (dnodeImage_entry (j := 14) (by omega)).1 (dnodeImage_entry (j := 15) (by omega)).1
  · rw [← get16_diEntC (Bytes.cstr [46, 46] Bytes.zero)]
    exact Bytes.get16_congr (dnodeImage_entry (j := 14) (by omega)).2 (dnodeImage_entry (j := 15) (by omega)).2

theorem Initial.formatted (initial : Initial s) : Formatted s := by
  have good := initial.good
  have loaded : inodeLoad s (2 : Nat) = (dnodeImage 2 2).take 128 := by
    rw [good.owned.inodeLoad_eq good.tree.root, initial.root]
  have byte : ∀ o < 128, inodeLoad s (2 : Nat) o = dnodeImage 2 2 o := fun o ho => by
    rw [loaded, Bytes.take_apply_of_lt ho]
  have ok : DirOk s.stores.pool 2 := dirOk_dnodeImage initial.root
  have two : size (s.stores.pool.cell 2) = 2 := by
    rw [initial.root, size, Bytes.get16_take (by omega)]
    exact size_dnodeImage
  obtain ⟨d, listed, bytes⟩ := good.owned.dnodeListing_spec good.tree.root ok.dir
  have short : endOf (s.stores.pool.cell 2) = diEntSize * 2 := by rw [endOf_dir ok.dir, two]
  rw [short] at bytes
  have count := initial.count
  rw [← initial.synced.size_eq] at count
  refine ⟨initial.list.freeChain, count, fun q within => ?_, ⟨?_, ?_, ?_⟩, fun i hi => ?_, ?_⟩
  · have free := stores_free (s := s) q
    have inside : q < 4096 := by simp only [INODE_BLK_SIZE] at within; omega
    rw [initial.free] at free
    simpa [inside] using free.symm
  · exact (byte 12 (by omega)).trans isdir_dnodeImage
  · exact (Bytes.get16_congr (byte 4 (by omega)) (byte 5 (by omega))).trans size_dnodeImage
  · exact (Bytes.get16_congr (byte 6 (by omega)) (byte 7 (by omega))).trans nlink_dnodeImage
  · constructor
    · exact (Bytes.get16_congr (byte _ (by omega)) (byte _ (by omega))).trans (dnodeImage_get16_tail (by omega))
    · exact (Bytes.get16_congr (byte _ (by omega)) (byte _ (by omega))).trans (dnodeImage_get16_tail (by omega))
  · rw [listed, two]
    refine ⟨rfl, fun i hi => ?_⟩
    have inum : diEntInum (diEnt d i) = entInum s.stores.pool 2 i := by
      rw [diEntInum_eq]
      exact inum_congr bytes (by simp only [diEntSize]; omega) hi
    have name : Bytes.chars d (diEntSize * i) 14 = entName s.stores.pool 2 i :=
      name_congr bytes (by simp only [diEntSize]; omega) hi
    have image : ∀ o < 96, bytesOf s.stores.pool 2 o = dnodeImage 2 2 (16 + o) := fun o ho => by
      rw [bytesOf_inline ho, initial.root, Bytes.take_apply_of_lt (by omega)]
    have entry : ∀ o < 90, (bytesOf s.stores.pool 2).get16 o = (dnodeImage 2 2).get16 (16 + o) := fun o ho =>
      Bytes.get16_congr (image o (by omega)) (image (o + 1) (by omega))
    rw [inum, name, entInum, entry _ (by simp only [diEntSize]; omega)]
    rcases (by omega : i = 0 ∨ i = 1) with rfl | rfl
    · exact ⟨get16_dnodeImage.1, ok.dot⟩
    · exact ⟨get16_dnodeImage.2, ok.dotdot⟩

/-- Mounting sets up the same file system whatever the disk held before, and
nothing but the root is found in it. -/
theorem sfsInit_formatted (disk : Bytes) : Formatted (sfsInit disk) ∧
    ∀ c, Plain c → (pathToInum (sfsInit disk) (render [c])).1 = ⟨-1, 2⟩ := by
  have initial := sfsInit_initial disk
  have good := initial.good
  refine ⟨initial.formatted, fun c plain => ?_⟩
  obtain ⟨s', found, _⟩ := pathToInum_spec [] good.owned good.tree (by simp) plain rfl good.tree.top.dir
  rw [child_dnodeImage initial.root] at found
  exact congrArg Prod.fst found

theorem sfsInit_formatted_missing : (pathToInum (sfsInit Bytes.zero) (render [[97]])).1 = ⟨-1, 2⟩ :=
  (sfsInit_formatted Bytes.zero).2 [97] ⟨by decide, by decide, by decide, by decide, by decide⟩

end Sfs
