import Sfs.Gap
import Sfs.Range

namespace Sfs

/-- What a write that reports success promises: all of it is there to be read. -/
def ReadsBack (s : State) (k : Nat) (buf : Bytes) (len offset : Nat) : Prop :=
  0 ≤ (fstreamWrite s k buf len offset).1 → (fstreamWrite s k buf len offset).1 = len ∧
    (fstreamRead (fstreamWrite s k buf len offset).2 k len offset).1 = ⟨len, (List.range len).map buf⟩

/-- The number of entries of a list of `rows` blocks after a write that got all the blocks it asked for. -/
def writtenRows (rows offset len : Nat) : Nat := max rows (max (offset / 512) (min (lastBlock offset len) 8344))

/-- A write starts at a block that the list has room for, and there are blocks
and inodes enough for it. -/
structure Enough (s : State) (k offset len : Nat) (fl : List Nat) : Prop where
  start : offset / 512 ≤ 8344
  blocks : min (lastBlock offset len) 8344 ≤ max (offset / 512) (size (s.stores.pool.cell k)) + fl.length
  inodes : pageCount (blknumSize * writtenRows (size (s.stores.pool.cell k)) offset len)
    (blknumSize * size (s.stores.pool.cell k)) ≤ s.stores.pool.freeCount 1024

variable {L : Set Nat} {s s' t : State} {fl : List Nat} {k n offset len : Nat} {buf : Bytes} {v : Int}

theorem errnoPush_failed (s : State) : (errnoPush s (-EFBIG)).errno < 0 := by
  rw [errnoPush]
  exact Int.negSucc_lt_zero _

theorem onward_fnodeListingSet (s : State) (k : Nat) (n : Int) : Onward s (fnodeListingSet s k n) := by
  rw [fnodeListingSet]
  split
  · have pushed : Onward s (errnoPush s (-EFBIG)) := ⟨.of_eq rfl, fun _ => errnoPush_failed s⟩
    exact pushed.trans onward_steps.listingSet
  · exact onward_steps.listingSet

/-- A list that is too long is an error. -/
theorem fnodeListingSet_over (long : 8344 < n) : (fnodeListingSet s k n).errno < 0 := by
  rw [fnodeListingSet, if_pos (by simp only [FENTRY_MAX_SIZE]; omega)]
  exact onward_steps.listingSet.failed (errnoPush_failed s)

/-- What the bytes of a file are read from. -/
theorem fstreamRead_window (owned : Owned L s.stores.pool) (live : k ∈ L) (file : isdir (s.stores.pool.cell k) = 0)
    (within : offset + len ≤ fsize (s.stores.pool.cell k)) (short : fsize (s.stores.pool.cell k) < 2147483648)
    (held : ∀ i, offset ≤ i → i < offset + len → i / 512 < size (s.stores.pool.cell k) ∧
      (1025 ≤ blockNo s.stores.pool k (i / 512) ∧ blockNo s.stores.pool k (i / 512) < 32768) ∧
      s.stores.data (blockNo s.stores.pool k (i / 512)) (i % 512) = buf (i - offset)) :
    (fstreamRead s k len offset).1 = ⟨len, (List.range len).map buf⟩ := by
  have fits := owned.fits k live
  obtain ⟨f, listed, bytes, _⟩ := owned.fnodeListing_spec live file
  rw [endOf_file file] at bytes fits
  have limit : size (s.stores.pool.cell k) ≤ 8344 := by
    simp only [blknumSize] at fits
    omega
  have count : min len (fsize (s.stores.pool.cell k) - offset) = len := by omega
  rw [fstreamRead_eq owned live file (by omega) short listed limit, count, ReadResult.mk.injEq]
  refine ⟨rfl, List.map_congr_left fun j member => ?_⟩
  have inside := List.mem_range.mp member
  have index : offset / 512 + (offset % 512 + j) / 512 = (offset + j) / 512 := by omega
  have place : (offset % 512 + j) % 512 = (offset + j) % 512 := by omega
  obtain ⟨row, area, byte⟩ := held (offset + j) (by omega) (by omega)
  have number : fNo f ((offset + j) / 512) = blockNo s.stores.pool k ((offset + j) / 512) := block_congr bytes fits row
  have got : fGet { s with f } ((offset + j) / 512 : Nat) = blockNo s.stores.pool k ((offset + j) / 512) := by
    rw [← number] at area ⊢
    exact fGet_nat (area.2.trans (by decide))
  rw [index, place, if_pos row, got, blockRead_data area.1 (area.2.trans (by decide)), byte, Nat.add_sub_cancel_left]

section

variable (wf : Consistent L s fl) (live : k ∈ L) (file : isdir (s.stores.pool.cell k) = 0)
  (small : offset + len < 2147483648)

include wf live file small

/-- The write loop and the steps after it. -/
theorem fstreamWrite_steps (buf : Bytes) : ∃ (t : State) (e : Nat),
    t.stores.pool = s.stores.pool ∧
    (min (lastBlock offset len) 8344 ≤ max (offset / 512) (size (s.stores.pool.cell k)) + fl.length →
      e = max (offset / 512) (min (lastBlock offset len) 8344) ∧ t.errno = s.errno) ∧
    (max (offset / 512) (size (s.stores.pool.cell k)) + fl.length < min (lastBlock offset len) 8344 →
      t.errno = -ENOSPC) ∧
    fstreamWrite s k buf len offset =
      let popped := errnoPop (fnodeListingSet (inodeSetAttrUpc t k (newFsize (s.stores.pool.cell k) (offset + len))) k
        (max (size (s.stores.pool.cell k)) e : Nat))
      (if popped.1 < 0 then popped.1 else len, popped.2) := by
  have limit := wf.rows_le live file
  obtain ⟨f, listed, bytes, _⟩ := wf.owned.fnodeListing_spec live file
  rw [endOf_file file] at bytes
  have fits := wf.owned.fits k live
  rw [endOf_file file] at fits
  have start : ({ s with f } : State).stores = s.stores := stores_congr rfl
  have held : Held f (size (s.stores.pool.cell k)) fl :=
    wf.blocks.held live file fun i before => block_congr bytes fits before
  obtain ⟨blkbuf, _, run⟩ := fstreamWrite_eq buf wf.owned.toMarked live file small listed limit
  obtain ⟨_, pool, e, stop, enough, short⟩ := writeBlocks_calm (t := { s with f }) (lastBlock offset len)
    (lastBlock offset len - offset / 512) blkbuf (by rw [start]; exact wf.list) held (offset / 512) 0
    (Nat.add_sub_cancel' (start_le_lastBlock offset len))
  rw [start] at pool
  generalize writeBlocks { s with f } (size (s.stores.pool.cell k)) (lastBlock offset len) (offset / 512 : Nat) blkbuf 0
    (lastBlock offset len - offset / 512) = written at *
  have rows : (if (size (s.stores.pool.cell k) : Int) > written.1 then (size (s.stores.pool.cell k) : Int)
      else written.1) = (max (size (s.stores.pool.cell k)) e : Nat) := by
    rw [stop]
    split <;> omega
  simp only [rows] at run
  exact ⟨written.2, e, pool, enough, short, run⟩

/-- A write that does not fail had all it needed. -/
theorem enough_of_success (success : 0 ≤ (fstreamWrite s k buf len offset).1) : Enough s k offset len fl := by
  have limit := wf.rows_le live file
  have range := wf.owned.node_range live
  obtain ⟨t, e, pool, enough, short, run⟩ := fstreamWrite_steps wf live file small buf
  have marked : Marked L t.stores.pool := by rw [pool]; exact wf.owned.toMarked
  obtain ⟨x, quiet, stores, header, _⟩ := inodeSetAttrUpc_spec marked live (by rw [pool]; exact file)
    (newFsize (s.stores.pool.cell k) (offset + len))
  obtain ⟨marked₁, _, ends₁, entry₁⟩ := marked.header live header
  have errno₁ := quiet.errno_eq
  generalize inodeSetAttrUpc t k (newFsize (s.stores.pool.cell k) (offset + len)) = t₁ at *
  have pool₁ : t₁.stores.pool = t.stores.pool.write k x := by rw [stores, Stores.setPool_pool]
  have onward := onward_fnodeListingSet t₁ k (max (size (s.stores.pool.cell k)) e : Nat)
  have tooLong := fnodeListingSet_over (s := t₁) (k := k) (n := max (size (s.stores.pool.cell k)) e)
  generalize setIs : fnodeListingSet t₁ k (max (size (s.stores.pool.cell k)) e : Nat) = t₂ at *
  have clear : 0 ≤ t₂.errno := by
    by_contra failed
    have popped : (errnoPop t₂).1 < 0 := not_le.mp failed
    rw [run] at success
    dsimp only at success
    rw [if_pos popped] at success
    exact absurd success (not_le.mpr popped)
  have blocks : min (lastBlock offset len) 8344 ≤ max (offset / 512) (size (s.stores.pool.cell k)) + fl.length := by
    by_contra lack
    have failed : t₁.errno < 0 := by
      rw [errno₁, short (not_le.mp lack)]
      decide
    exact absurd (onward.failed failed) (not_lt.mpr clear)
  obtain ⟨rfl, _⟩ := enough blocks
  rw [← writtenRows] at setIs tooLong
  have inside : writtenRows (size (s.stores.pool.cell k)) offset len ≤ 8344 := by
    by_contra beyond
    exact absurd (tooLong (not_le.mp beyond)) (not_lt.mpr clear)
  have reaches : offset / 512 ≤ writtenRows (size (s.stores.pool.cell k)) offset len :=
    (le_max_left _ _).trans (le_max_right _ _)
  refine ⟨reaches.trans inside, blocks, ?_⟩
  have cell : t₁.stores.pool.cell k = x := by rw [pool₁, Pool.write_cell_self]
  have file₁ : isdir (t₁.stores.pool.cell k) = 0 := by
    rw [cell, isdir, header 12 (by omega), pool]
    exact file
  have entry : entrySize (t₁.stores.pool.cell k) = blknumSize := if_neg (not_not.mpr file₁)
  rw [← pool₁] at marked₁
  rw [fnodeListingSet_eq inside, ← entry] at setIs
  have room := marked₁.room_of_clear live setIs (by omega) clear
  have ends : endOf (t₁.stores.pool.cell k) = blknumSize * size (s.stores.pool.cell k) := by
    rw [cell, ends₁, pool, endOf_file file]
  have free : t₁.stores.pool.freeCount 1024 = s.stores.pool.freeCount 1024 := by
    rw [pool₁, Pool.freeCount, Pool.write_free, pool, Pool.freeCount]
  rw [entry, ends, free] at room
  exact room

/-- A write that has all it needs reports success. -/
theorem success_of_enough (buf : Bytes) (enough : Enough s k offset len fl) (clear : s.errno = 0) :
    (fstreamWrite s k buf len offset).1 = len ∧ Owned L (fstreamWrite s k buf len offset).2.stores.pool ∧
      isdir ((fstreamWrite s k buf len offset).2.stores.pool.cell k) = 0 ∧
      fsize ((fstreamWrite s k buf len offset).2.stores.pool.cell k) =
        min (max (fsize (s.stores.pool.cell k)) (offset + len)) FCONTENT_MAX_SIZE := by
  have limit := wf.rows_le live file
  have covered := wf.covered k live file
  obtain ⟨t, e, pool, complete, _, run⟩ := fstreamWrite_steps wf live file small buf
  obtain ⟨rfl, errno⟩ := complete enough.blocks
  have within : writtenRows (size (s.stores.pool.cell k)) offset len ≤ 8344 := by
    have start := enough.start
    rw [writtenRows]
    omega
  rw [← writtenRows] at run
  generalize setIs : fnodeListingSet (inodeSetAttrUpc t k (newFsize (s.stores.pool.cell k) (offset + len))) k
    (writtenRows (size (s.stores.pool.cell k)) offset len : Nat) = t₂ at run
  obtain ⟨recorded, _⟩ := record_spec (t := t) (by rw [pool]; exact wf.owned) live (by rw [pool]; exact file) within setIs
    (Or.inr (by rw [pool, endOf_file file]; exact enough.inodes))
  have none : t₂.errno = 0 := by rw [recorded.errno, errno, clear]
  have stores : (errnoPop t₂).2.stores = t₂.stores := stores_errnoPop t₂
  have popped : ¬ (errnoPop t₂).1 < 0 := none.symm.le.not_gt
  rw [run]
  dsimp only
  rw [if_neg popped, stores]
  refine ⟨rfl, recorded.repaged.owned, ?_, ?_⟩
  · rw [recorded.repaged.resized.isdir_eq, pool]
    exact file
  · rw [recorded.fsize, newFsize_eq (by omega)]

/-- Within the limit a write that has all it needs can be read back. -/
theorem readsBack_within (limit : offset + len ≤ FCONTENT_MAX_SIZE) (nonempty : 0 < len)
    (enough : Enough s k offset len fl) (clear : s.errno = 0) : ReadsBack s k buf len offset := by
  have max : FCONTENT_MAX_SIZE = 4272128 := rfl
  have stop := lastBlock_le limit
  have order := start_le_lastBlock offset len
  have covered := wf.covered k live file
  have limit₀ := wf.rows_le live file
  obtain ⟨result, owned', file', bytes'⟩ := success_of_enough wf live file small buf enough clear
  have blocks : lastBlock offset len ≤ offset / 512 ⊔ size (s.stores.pool.cell k) + fl.length := by
    have blocks := enough.blocks
    rwa [Nat.min_eq_left stop] at blocks
  have rows : writtenRows (size (s.stores.pool.cell k)) offset len =
      size (s.stores.pool.cell k) ⊔ lastBlock offset len := by
    rw [writtenRows, Nat.min_eq_left stop, Nat.max_eq_right order]
  have inodes := enough.inodes
  rw [rows] at inodes
  refine fun _ => ⟨result, fstreamRead_window owned' live file' (by omega) (by omega) fun i lower upper => ?_⟩
  by_cases noHole : offset / 512 ≤ size (s.stores.pool.cell k)
  · rw [max_comm] at blocks
    obtain ⟨taken, fl', stored, after, _⟩ := fstreamWrite_stored buf wf live file noHole limit blocks inodes
    have covered' := after.covered k live file'
    have inside : i / 512 < size ((fstreamWrite s k buf len offset).2.stores.pool.cell k) := by omega
    refine ⟨inside, ?_, ?_⟩
    · exact after.blocks.area k live file' _ (List.mem_map.mpr ⟨_, List.mem_range.mpr inside, rfl⟩)
    · rw [stored.byte after live file' noHole le_rfl (by omega), if_pos ⟨lower, upper⟩]
  · have hole : size (s.stores.pool.cell k) < offset / 512 := not_le.mp noHole
    obtain ⟨f, listed, _⟩ := wf.owned.fnodeListing_spec live file
    have split := List.take_append_drop (lastBlock offset len - offset / 512) fl
    have count : (fl.take (lastBlock offset len - offset / 512)).length = lastBlock offset len - offset / 512 := by
      rw [List.length_take]
      omega
    generalize fl.take (lastBlock offset len - offset / 512) = taken at *
    generalize fl.drop (lastBlock offset len - offset / 512) = fl' at *
    subst split
    obtain ⟨holed, _⟩ := fstreamWrite_hole buf wf.owned live file wf.list small stop hole count listed (Or.inr (by
      rw [endOf_file file]
      rwa [Nat.max_eq_right (by omega)] at inodes))
    obtain ⟨g, repaged⟩ := holed.repaged
    have size' := repaged.resized.size
    have reach : offset + len ≤ 512 * lastBlock offset len := by
      rw [lastBlock]
      omega
    have number := holed.new (i / 512 - offset / 512) (by omega)
    rw [Nat.add_sub_cancel' (by omega)] at number
    refine ⟨by omega, ?_, ?_⟩
    · rw [number]
      exact wf.list.area _ (List.mem_append_left _ (List.getElem_mem _))
    · rw [holed_byte_new holed (by omega) (by omega), if_pos ⟨lower, upper⟩]

/-- Past the limit the bytes that are there are fewer than the write has reported. -/
theorem not_readsBack_past (past : FCONTENT_MAX_SIZE < offset + len) (nonempty : 0 < len)
    (enough : Enough s k offset len fl) (clear : s.errno = 0) : ¬ ReadsBack s k buf len offset := by
  intro reads
  have max : FCONTENT_MAX_SIZE = 4272128 := rfl
  obtain ⟨result, owned', file', bytes'⟩ := success_of_enough wf live file small buf enough clear
  have fits := owned'.fits k live
  obtain ⟨f, listed, _⟩ := owned'.fnodeListing_spec live file'
  rw [endOf_file file'] at fits
  have limit : size ((fstreamWrite s k buf len offset).2.stores.pool.cell k) ≤ 8344 := by
    simp only [blknumSize] at fits
    omega
  obtain ⟨_, got⟩ := reads (by rw [result]; exact Int.natCast_nonneg len)
  rw [fstreamRead_eq owned' live file' small (by omega) listed limit, ReadResult.mk.injEq] at got
  have count := Int.ofNat_inj.mp got.1
  have bound : fsize (s.stores.pool.cell k) ≤ FCONTENT_MAX_SIZE := by
    have covered := wf.covered k live file
    have rows := wf.rows_le live file
    omega
  omega

/-- A write that reports success can be read back within the limit, and past
the limit only where it cannot succeed. -/
theorem fstreamWrite_readsBack_iff (nonempty : 0 < len) (clear : s.errno = 0) :
    ReadsBack s k buf len offset ↔ offset + len ≤ FCONTENT_MAX_SIZE ∨ ¬ Enough s k offset len fl := by
  constructor
  · intro reads
    by_contra neither
    obtain ⟨past, enough⟩ := not_or.mp neither
    exact not_readsBack_past wf live file small (not_le.mp past) nonempty (not_not.mp enough) clear reads
  · rintro (limit | lack)
    · intro success
      exact readsBack_within wf live file small limit nonempty (enough_of_success wf live file small success) clear success
    · exact fun success => absurd (enough_of_success wf live file small success) lack

end

/-- A new file system has enough blocks and inodes for every file. -/
theorem FirstFile.enough {c : List UInt8} (first : FirstFile s k c) (start : offset / 512 ≤ 8344) :
    Enough s k offset len (List.range' 1025 31743) := by
  have pages := pageCount_le (blknumSize * writtenRows (size (s.stores.pool.cell k)) offset len)
    (blknumSize * size (s.stores.pool.cell k))
  have spare := first.spare
  refine ⟨start, ?_, by omega⟩
  rw [List.length_range']
  have cut := Nat.min_le_right (lastBlock offset len) 8344
  omega

/-- Ten bytes written to the empty file `/a`. -/
theorem fstreamWrite_readsBack_first : ∃ k, (pathToInum firstState (render [[97]])).1.inum = (k : Nat) ∧
    ReadsBack firstState k Bytes.zero 10 0 := by
  obtain ⟨k, first⟩ := firstState_firstFile
  generalize firstState = s at *
  exact ⟨k, first.found, (fstreamWrite_readsBack_iff first.wellFormed.toConsistent FirstFile.live first.file (by decide)
    (by decide) first.good.errno).mpr (Or.inl (by decide))⟩

/-- One byte written to the empty file `/a` at the limit is reported as written, and is not there. -/
theorem write_at_limit_lost : ∃ k fl, (pathToInum firstState (render [[97]])).1.inum = (k : Nat) ∧
    WellFormed {k, 2} firstState fl ∧ firstState.errno = 0 ∧ isdir (firstState.stores.pool.cell k) = 0 ∧
    ¬ ReadsBack firstState k Bytes.zero 1 4272128 := by
  obtain ⟨k, first⟩ := firstState_firstFile
  generalize firstState = s at *
  exact ⟨k, _, first.found, first.wellFormed, first.good.errno, first.file,
    not_readsBack_past first.wellFormed.toConsistent FirstFile.live first.file (by decide) (by decide) (by decide)
      (first.enough (by decide)) first.good.errno⟩

end Sfs
