import Sfs.FirstFile
import Sfs.Overlay
import Sfs.RoundTrip
import Sfs.Lib.Splice

namespace Sfs

open Splice

/-- `fstream_write` on file `k` has laid `buf` over the content, and nothing
else is different. -/
structure Overlaid (L : Set Nat) (s : State) (o : Int × State) (k : Nat) (buf : Bytes) (offset len : Nat) : Prop where
  result : o.1 = len
  content : contentOf o.2.stores k = splice (contentOf s.stores k) ((List.range len).map buf) offset
  others : ∀ m ∈ L, m ≠ k → Untouched s o.2 m
  consistent : ∃ fl, Consistent L o.2 fl
  errno : o.2.errno = 0

variable {L : Set Nat} {s s' : State} {fl fl' taken : List Nat} {k offset len e : Nat} {buf : Bytes}

theorem stored_content (stored : Stored L s s' k buf offset len e fl taken fl') (before : Consistent L s fl)
    (after : Consistent L s' fl') (live : k ∈ L) (file : isdir (s.stores.pool.cell k) = 0)
    (within : offset ≤ fsize (s.stores.pool.cell k)) (limit : offset + len ≤ FCONTENT_MAX_SIZE)
    (stop : lastBlock offset len ≤ e) :
    contentOf s'.stores k = splice (contentOf s.stores k) ((List.range len).map buf) offset := by
  obtain ⟨g, repaged⟩ := stored.repaged
  have file' : isdir (s'.stores.pool.cell k) = 0 := by rw [repaged.resized.isdir_eq]; exact file
  have covered := before.covered k live file
  have covered' := after.covered k live file'
  have fits := before.owned.fits k live
  rw [endOf_file file, blknumSize] at fits
  have max : FCONTENT_MAX_SIZE = 4272128 := rfl
  have length := length_contentOf covered
  have count : ((List.range len).map buf).length = len := by rw [List.length_map, List.length_range]
  have bytes : fsize (s'.stores.pool.cell k) = Max.max (fsize (s.stores.pool.cell k)) (offset + len) := by
    rw [stored.fsize_eq (by omega)]
    omega
  refine contentOf_eq covered' ?_ fun i inFile => ?_
  · rw [length_splice (by omega), length, count, bytes]
  · rw [stored.byte after live file' (by omega) stop (by omega)]
    by_cases inside : offset ≤ i ∧ i < offset + len
    · rw [if_pos inside, getElem?_splice_inside (by omega) inside.1 (by omega), List.getElem?_map,
        List.getElem?_range (by omega)]
      rfl
    · rw [if_neg inside, getElem?_splice_outside (by omega) (by omega), if_pos (by omega),
        contentOf_getElem? (by omega) (by omega)]

/-- The streams of a well-formed state read and write the contents of its files. -/
theorem stream_refines_content (wf : Consistent L s fl) (live : k ∈ L) (file : isdir (s.stores.pool.cell k) = 0)
    (clear : s.errno = 0) :
    (∀ buf offset len, offset ≤ fsize (s.stores.pool.cell k) → 0 < len → offset + len ≤ FCONTENT_MAX_SIZE →
      lastBlock offset len ≤ size (s.stores.pool.cell k) + fl.length →
      pageCount (blknumSize * max (size (s.stores.pool.cell k)) (lastBlock offset len))
        (blknumSize * size (s.stores.pool.cell k)) ≤ s.stores.pool.freeCount 1024 →
      Overlaid L s (fstreamWrite s k buf len offset) k buf offset len) ∧
    ∀ offset len : Nat, offset + len < 2147483648 → (fstreamRead s k len offset).1 =
      ⟨(min len (fsize (s.stores.pool.cell k) - offset) : Nat), ((contentOf s.stores k).drop offset).take len⟩ := by
  have covered := wf.covered k live file
  constructor
  · intro buf offset len within nonempty limit blocks inodes
    have noHole : offset / 512 ≤ size (s.stores.pool.cell k) := by omega
    obtain ⟨taken, fl', stored, after, errno, result⟩ := fstreamWrite_stored buf wf live file noHole limit
      (by rwa [Nat.max_eq_left noHole]) inodes
    have step := stored.fileStep
    exact ⟨result clear, stored_content stored wf after live file within limit le_rfl,
      fun m live' ne => step.untouched wf live file live' ne, ⟨fl', after⟩, errno⟩
  · intro offset len small
    exact fstreamRead_spec wf.owned live file small covered (wf.blocks.area k live file)

/-- A first write of 600 bytes to the file `/a`, read back. -/
theorem stream_refines_content_first : ∃ k,
    (pathToInum firstState (render [[97]])).1.inum = (k : Nat) ∧
    Overlaid {k, 2} firstState (fstreamWrite firstState k (fun _ => 7) (600 : Nat) (0 : Nat)) k (fun _ => 7) 0 600 ∧
    (fstreamRead firstState k (10 : Nat) (0 : Nat)).1.size = 0 := by
  obtain ⟨k, first⟩ := firstState_firstFile
  generalize firstState = s at *
  have streams := stream_refines_content first.wellFormed.toConsistent FirstFile.live first.file first.good.errno
  refine ⟨k, first.found, streams.1 _ 0 600 (Nat.zero_le _) (by decide) (by decide) ?_ ?_, ?_⟩
  · rw [first.rows, List.length_range']
    decide
  · rw [first.rows, first.spare]
    decide
  · rw [streams.2 0 10 (by decide), first.bytes]
    rfl

/-- `/a` on a new file system in which inode number 1 is marked free, and no other. -/
def fileSlotOneFree : State := blockWrite firstState INODE_BLK_SIZE (Function.update Bytes.zero 0 0x40)

theorem fnodeListing_size (s : State) (k : Nat) : ∃ f, fnodeListing s k = (size (inodeLoad s k), { s with f }) :=
  ⟨_, rfl⟩

theorem not_marked_write_slotOne {L : Set Nat} (buf : Bytes) (marked : Marked L s.stores.pool) (live : k ∈ L)
    (file : isdir (s.stores.pool.cell k) = 0) (empty : size (s.stores.pool.cell k) = 0)
    (free : ∀ q, s.stores.pool.free q = decide (q = 1)) (list : FreeList s.stores (taken ++ fl'))
    (enough : taken.length = 25) :
    ¬ Marked L (fstreamWrite s k buf (12289 : Nat) (0 : Nat)).2.stores.pool := by
  have range := marked.node_range live
  have loaded := marked.inodeLoad_eq live
  obtain ⟨f, listed⟩ := fnodeListing_size s k
  rw [loaded, empty] at listed
  have start : ({ s with f } : State).stores = s.stores := stores_congr rfl
  have stop : lastBlock 0 12289 = 25 := by decide
  obtain ⟨blkbuf, _, run⟩ := fstreamWrite_eq buf marked live file (show 0 + 12289 < 2147483648 by decide) listed (by decide)
  obtain ⟨t, loop, placed⟩ := writeBlocks_fresh (t := { s with f }) blkbuf
    (by rwa [start]) (show 0 ≤ 0 from le_rfl) (show 0 = 512 * (0 - 0) from rfl) le_rfl (by omega)
  have pool : t.stores.pool = s.stores.pool := by rw [placed.pool, start]
  rw [enough] at loop
  rw [stop] at run
  have rounds : 25 - 0 / 512 = 25 := by decide
  have first : ((0 / 512 : Nat) : Int) = (0 : Nat) := rfl
  have limit : ((0 + 25 : Nat) : Int) = (25 : Nat) := rfl
  simp only [rounds, first, limit] at run loop
  have rows : (if ((0 : Nat) : Int) > (25 : Nat) then ((0 : Nat) : Int) else (25 : Nat)) = (25 : Nat) := rfl
  simp only [loop, rows] at run
  generalize newFsize (s.stores.pool.cell k) (0 + 12289) = v at run
  obtain ⟨x, _, stores₁, header, _⟩ := inodeSetAttrUpc_spec (s := t) (by rwa [pool]) live (by rw [pool]; exact file) v
  rw [pool] at header
  generalize inodeSetAttrUpc t k v = t₁ at run stores₁
  rw [fnodeListingSet_eq (by decide)] at run
  generalize set : listingSet blknumSize t₁.f t₁ k (25 : Nat) = t₂ at run
  have stores₂ : (fstreamWrite s k buf (12289 : Nat) (0 : Nat)).2.stores = t₂.stores := by
    have same := congrArg (fun o => o.2.stores) run
    exact same.trans (stores_errnoPop t₂)
  have cell : t₁.stores.pool.cell k = x := by
    rw [stores₁, Stores.setPool_pool, Pool.write_cell_self]
  have file₁ : isdir (t₁.stores.pool.cell k) = 0 := by
    rw [cell, isdir, header 12 (by omega)]
    exact file
  have own₁ : ino (t₁.stores.pool.cell k) = k := by
    have same : ino x = ino (s.stores.pool.cell k) :=
      Bytes.get16_congr (header 0 (by omega)) (header 1 (by omega))
    rw [cell, same, marked.own k live]
  have size₁ : size (t₁.stores.pool.cell k) = 0 := by
    have same : size x = size (s.stores.pool.cell k) :=
      Bytes.get16_congr (header 4 (by omega)) (header 5 (by omega))
    rw [cell, same, empty]
  obtain ⟨number, ends⟩ := listingSet_slotOne range own₁
    (fun q => by rw [stores₁, Stores.setPool_pool, Pool.write_free, pool]; exact free q)
    (if_neg (not_not.mpr file₁)).symm (by rw [size₁]; decide) (by decide) (by decide) (by decide) set
  rw [stores₂]
  exact not_marked_slotOne live number (by rw [ends]; decide)

/-! The other parts of the state do not depend on the bitmap. -/

theorem Marked.slotOne {p : Pool Bytes} (marked : Marked L p) : Marked L ⟨p.cell, fun q => decide (q = 1)⟩ where
  inj := marked.inj
  range := marked.range
  used m live c holds := by
    have range := marked.range m live c holds
    exact decide_eq_false fun same => by rw [same] at range; omega
  own := marked.own

theorem FileBlocks.setFree {p : Pool Bytes} (free : Nat → Bool) (blocks : FileBlocks L p fl) :
    FileBlocks L ⟨p.cell, free⟩ fl := ⟨blocks.area, blocks.nodup, blocks.apart⟩

theorem FreeList.setPool {v : Stores} {p : Pool Bytes} (list : FreeList v fl) : FreeList (v.setPool p) fl :=
  list.congr rfl fun _ _ => rfl

/-- A write of 12289 bytes makes number 1 a page of the file. -/
theorem write_takes_slot_one : ∃ k, Marked {k, 2} fileSlotOneFree.stores.pool ∧
    (∀ m ∈ ({k, 2} : Set Nat), endOf (fileSlotOneFree.stores.pool.cell m) ≤ 33376) ∧
    FreeList fileSlotOneFree.stores (List.range' 1025 31743) ∧
    FileBlocks {k, 2} fileSlotOneFree.stores.pool (List.range' 1025 31743) ∧
    (∀ m ∈ ({k, 2} : Set Nat), isdir (fileSlotOneFree.stores.pool.cell m) = 0 →
      fsize (fileSlotOneFree.stores.pool.cell m) ≤ 512 * size (fileSlotOneFree.stores.pool.cell m)) ∧
    fileSlotOneFree.errno = 0 ∧ isdir (fileSlotOneFree.stores.pool.cell k) = 0 ∧
    pageCount (blknumSize * lastBlock 0 12289) 0 ≤ fileSlotOneFree.stores.pool.freeCount 1024 ∧
    ¬ Marked {k, 2} (fstreamWrite fileSlotOneFree k Bytes.zero (12289 : Nat) (0 : Nat)).2.stores.pool := by
  obtain ⟨k, first⟩ := firstState_firstFile
  have stores := stores_slotOne firstState
  have errno := blockWrite_errno firstState INODE_BLK_SIZE (Function.update Bytes.zero 0 0x40)
  rw [← fileSlotOneFree] at stores errno
  generalize fileSlotOneFree = s at *
  generalize firstState = t at *
  have wf := first.wellFormed
  have live : k ∈ ({k, 2} : Set Nat) := FirstFile.live
  have pool : s.stores.pool = ⟨t.stores.pool.cell, fun q => decide (q = 1)⟩ := by rw [stores, Stores.setPool_pool]
  have marked := wf.owned.toMarked.slotOne
  have blocks := wf.blocks.setFree fun q => decide (q = 1)
  rw [← pool] at marked blocks
  have cell : s.stores.pool.cell = t.stores.pool.cell := by rw [pool]
  have free : ∀ q, s.stores.pool.free q = decide (q = 1) := fun q => by rw [pool]
  have list : FreeList s.stores (List.range' 1025 31743) := by
    rw [stores]
    exact wf.list.setPool
  have file : isdir (s.stores.pool.cell k) = 0 := by
    rw [cell]
    exact first.file
  refine ⟨k, marked, fun m live => ?_, list, blocks, fun m live file => ?_, errno.trans first.good.errno, file, ?_, ?_⟩
  · rw [cell]
    exact wf.owned.fits m live
  · rw [cell] at file ⊢
    exact wf.covered m live file
  · rw [Pool.freeCount_slotOne free]
    decide
  · have split : List.range' 1025 31743 = List.range' 1025 25 ++ List.range' 1050 31718 :=
      (List.range'_append_1 (s := 1025) (m := 25) (n := 31718)).symm
    rw [split] at list
    exact not_marked_write_slotOne Bytes.zero marked live file (by rw [cell]; exact first.rows) free list List.length_range'

end Sfs
