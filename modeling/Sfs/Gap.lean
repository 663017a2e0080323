import Sfs.FirstFile
import Sfs.Overlay
import Sfs.OwnBlocks

namespace Sfs

/-- After a write past the end of file `k` the bytes up to `offset` read as
zero and the bytes from there on as `buf`, in blocks that are the file's own. -/
structure ZeroGap (L : Set Nat) (s s' : State) (k : Nat) (buf : Bytes) (offset len : Nat) : Prop where
  gap : (fstreamRead s' k (offset - fsize (s.stores.pool.cell k) : Nat) (fsize (s.stores.pool.cell k))).1.bytes =
    List.replicate (offset - fsize (s.stores.pool.cell k)) 0
  written : (fstreamRead s' k len offset).1.bytes = (List.range len).map buf
  own : OwnBlocks L s'.stores k

/-- A number left in the buffer `f` that does no harm as a list entry of the
hole: the block is lost and zero, or it is one that the write takes, with a
page of zeros. -/
def StaleOk (L : Set Nat) (s : State) (k : Nat) (buf : Bytes) (offset len : Nat) (fl : List Nat) (b : Nat) : Prop :=
  (1025 ≤ b ∧ b < 32768) ∧ (∀ m ∈ L, m ≠ k → isdir (s.stores.pool.cell m) = 0 → b ∉ blocksOf s.stores.pool m) ∧
    (b ∉ fl ∧ (∀ o < 512, s.stores.data b o = 0) ∨
      ∃ i < lastBlock offset len - offset / 512, fl[i]? = some b ∧ ∀ o < 512,
        offset ≤ 512 * (offset / 512 + i) + o → 512 * (offset / 512 + i) + o < offset + len →
          buf (512 * (offset / 512 + i) + o - offset) = 0)

/-- The bytes past the end in the blocks of the file are zero, and so is what
the stale entries of the hole stand for. -/
structure GapClean (L : Set Nat) (s : State) (k : Nat) (buf : Bytes) (offset len : Nat) (fl : List Nat) : Prop where
  tail : ∀ i, fsize (s.stores.pool.cell k) ≤ i → i < offset → i / 512 < size (s.stores.pool.cell k) →
    s.stores.data (blockNo s.stores.pool k (i / 512)) (i % 512) = 0
  stale : ∀ j, size (s.stores.pool.cell k) ≤ j → j < offset / 512 →
    StaleOk L s k buf offset len fl (fNo (fnodeListing s k).2.f j)

variable {L : Set Nat} {s s' : State} {fl fl' taken : List Nat} {i j k e offset len : Nat} {buf f : Bytes}

/-- The two reads, byte by byte. -/
theorem zeroGap_iff_bytes (owned : Owned L s'.stores.pool) (live : k ∈ L) (file : isdir (s'.stores.pool.cell k) = 0)
    (past : fsize (s.stores.pool.cell k) < offset) (bytes : fsize (s'.stores.pool.cell k) = offset + len)
    (covered : offset + len ≤ 512 * size (s'.stores.pool.cell k)) :
    ZeroGap L s s' k buf offset len ↔ OwnBlocks L s'.stores k ∧
      (∀ i, fsize (s.stores.pool.cell k) ≤ i → i < offset →
        s'.stores.data (blockNo s'.stores.pool k (i / 512)) (i % 512) = 0) ∧
      ∀ i < len, s'.stores.data (blockNo s'.stores.pool k ((offset + i) / 512)) ((offset + i) % 512) = buf i := by
  have gapIff := fun area => fstreamRead_bytes_iff (s := s') (fsize (s.stores.pool.cell k))
    (offset - fsize (s.stores.pool.cell k)) (x := List.replicate (offset - fsize (s.stores.pool.cell k)) 0) owned live
    file (by omega) (by omega) area List.length_replicate
  have readIff := fun area => fstreamRead_bytes_iff (s := s') offset len
    (x := (List.range len).map buf) owned live file (by omega) (by omega) area (by simp)
  have area : OwnBlocks L s'.stores k → ∀ b ∈ blocksOf s'.stores.pool k, 1025 ≤ b ∧ b < 32768 := by
    rintro ⟨fl, _, sole⟩ b member
    exact ⟨(sole b member).lower, (sole b member).upper⟩
  constructor
  · rintro ⟨gap, written, own⟩
    rw [gapIff (area own)] at gap
    rw [readIff (area own)] at written
    refine ⟨own, fun i lower upper => ?_, fun i hi => ?_⟩
    · have byte := gap (i - fsize (s.stores.pool.cell k)) (by omega)
      rw [List.getElem?_replicate_of_lt (by omega), Nat.add_sub_cancel' lower] at byte
      exact (Option.some.inj byte).symm
    · have byte := written i hi
      rw [List.getElem?_map, List.getElem?_range hi] at byte
      exact (Option.some.inj byte).symm
  · rintro ⟨own, gap, written⟩
    refine ⟨?_, ?_, own⟩
    · rw [gapIff (area own)]
      intro j hj
      rw [List.getElem?_replicate_of_lt hj, gap _ (by omega) (by omega)]
    · rw [readIff (area own)]
      intro j hj
      rw [List.getElem?_map, List.getElem?_range hj, written j hj]
      rfl

theorem stored_zeroGap_iff (stored : Stored L s s' k buf offset len e fl taken fl') (before : Consistent L s fl)
    (after : Consistent L s' fl') (live : k ∈ L) (file : isdir (s.stores.pool.cell k) = 0)
    (past : fsize (s.stores.pool.cell k) < offset) (limit : offset + len ≤ FCONTENT_MAX_SIZE)
    (noHole : offset / 512 ≤ size (s.stores.pool.cell k)) (stop : lastBlock offset len ≤ e) :
    ZeroGap L s s' k buf offset len ↔ GapClean L s k buf offset len fl := by
  obtain ⟨g, repaged⟩ := stored.repaged
  have rows := repaged.resized.size
  have file' : isdir (s'.stores.pool.cell k) = 0 := by rw [repaged.resized.isdir_eq]; exact file
  have max : FCONTENT_MAX_SIZE = 4272128 := rfl
  have bytes : fsize (s'.stores.pool.cell k) = offset + len := by
    rw [stored.fsize_eq (by omega)]
    omega
  have covered := after.covered k live file'
  have split : fl = taken ++ fl' := stored.split
  subst split
  have own : OwnBlocks L s'.stores k :=
    (before.ownBlocks_iff_new live file after.list (repaged.others before.owned live) fun j hj =>
      stored.number_old hj).mpr fun j lower upper => before.sole_taken (stored.number_new lower upper)
  have byte : ∀ i < offset + len, s'.stores.data (blockNo s'.stores.pool k (i / 512)) (i % 512) = _ := fun i hi =>
    stored.byte after live file' noHole stop (by omega)
  rw [zeroGap_iff_bytes after.owned live file' past bytes (by omega)]
  constructor
  · rintro ⟨_, gap, _⟩
    refine ⟨fun i lower upper inside => ?_, fun j lower upper => by omega⟩
    have zero := gap i lower upper
    rwa [byte i (by omega), if_neg (by omega), if_pos inside] at zero
  · rintro ⟨tail, _⟩
    refine ⟨own, fun i lower upper => ?_, fun i hi => ?_⟩
    · rw [byte i (by omega), if_neg (by omega)]
      split
      · exact tail i lower upper ‹_›
      · rfl
    · rw [byte _ (by omega), if_pos (by omega), Nat.add_sub_cancel_left]

section Hole

variable (holed : Holed L s s' k buf offset len f taken fl') (before : Consistent L s (taken ++ fl')) (live : k ∈ L)
  (file : isdir (s.stores.pool.cell k) = 0) (hole : size (s.stores.pool.cell k) < offset / 512)
  (enough : taken.length = lastBlock offset len - offset / 512)
  (bytes : ∀ o, Filled (endOf (s.stores.pool.cell k)) o → f o = bytesOf s.stores.pool k o)

include holed

/-- A byte in one of the new blocks. -/
theorem holed_byte_new (from₀ : offset / 512 ≤ i / 512) (within : i / 512 < offset / 512 + taken.length) :
    s'.stores.data (blockNo s'.stores.pool k (i / 512)) (i % 512) =
      if offset ≤ i ∧ i < offset + len then buf (i - offset) else 0 := by
  have index : offset / 512 + (i / 512 - offset / 512) = i / 512 := by omega
  have split : 512 * (i / 512) + i % 512 = i := by omega
  have number := holed.new (i / 512 - offset / 512) (by omega)
  rw [index] at number
  rw [number, holed.page _ (by omega) _ (by omega), index, split]

include before live file hole bytes

theorem holed_number_old (inside : j < size (s.stores.pool.cell k)) :
    blockNo s'.stores.pool k j = blockNo s.stores.pool k j := by
  have fits := before.owned.fits k live
  rw [endOf_file file] at bytes fits
  rw [holed.kept j (by omega)]
  exact block_congr bytes fits inside

/-- A byte in one of the old blocks. -/
theorem holed_byte_old (inside : i / 512 < size (s.stores.pool.cell k)) :
    s'.stores.data (blockNo s'.stores.pool k (i / 512)) (i % 512) =
      s.stores.data (blockNo s.stores.pool k (i / 512)) (i % 512) := by
  rw [holed_number_old holed before live file hole bytes inside,
    holed.data _ (before.old_not_taken live file inside)]

include enough

theorem holed_ownBlocks_iff : OwnBlocks L s'.stores k ↔ ∀ j, size (s.stores.pool.cell k) ≤ j → j < offset / 512 →
    Sole L s.stores.pool k fl' (fNo f j) := by
  obtain ⟨g, repaged⟩ := holed.repaged
  have rows := repaged.resized.size
  rw [before.ownBlocks_iff_new live file holed.list (repaged.others before.owned live) fun j hj =>
    holed_number_old holed before live file hole bytes hj]
  constructor
  · intro sole j lower upper
    have at' := sole j lower (by omega)
    rwa [holed.kept j upper] at at'
  · intro sole j lower upper
    by_cases stale : j < offset / 512
    · rw [holed.kept j stale]
      exact sole j lower stale
    · have index : offset / 512 + (j - offset / 512) = j := by omega
      have number := holed.new (j - offset / 512) (by omega)
      rw [index] at number
      rw [number]
      exact before.sole_taken (List.getElem_mem _)

theorem holed_zeroGap_iff (past : fsize (s.stores.pool.cell k) < offset) (nonempty : 0 < len)
    (limit : offset + len ≤ FCONTENT_MAX_SIZE) (stale : (fnodeListing s k).2.f = f) :
    ZeroGap L s s' k buf offset len ↔ GapClean L s k buf offset len (taken ++ fl') := by
  obtain ⟨g, repaged⟩ := holed.repaged
  have rows := repaged.resized.size
  have file' : isdir (s'.stores.pool.cell k) = 0 := by rw [repaged.resized.isdir_eq]; exact file
  have max : FCONTENT_MAX_SIZE = 4272128 := rfl
  have covered := before.covered k live file
  have stop : offset / 512 + taken.length = lastBlock offset len := by
    have := start_le_lastBlock offset len
    omega
  have reach : offset + len ≤ 512 * lastBlock offset len := by
    rw [lastBlock]
    omega
  have number : fsize (s'.stores.pool.cell k) = offset + len := by
    rw [holed.fsize (by omega)]
    omega
  have old := fun i => holed_byte_old holed before live file hole bytes (i := i)
  have new := fun i => holed_byte_new holed (i := i)
  rw [zeroGap_iff_bytes repaged.owned live file' past number (by omega),
    holed_ownBlocks_iff holed before live file hole enough bytes]
  constructor
  · rintro ⟨own, gap, _⟩
    refine ⟨fun i lower upper inside => ?_, fun j lower upper => ?_⟩
    · rw [← old i inside]
      exact gap i lower upper
    · obtain ⟨low, up, apart, off⟩ := own j lower upper
      have zero : ∀ o < 512, s'.stores.data (fNo f j) o = 0 := fun o ho => by
        have at' := gap (512 * j + o) (by omega) (by omega)
        have index : (512 * j + o) / 512 = j := by omega
        have place : (512 * j + o) % 512 = o := by omega
        rwa [index, place, holed.kept j upper] at at'
      rw [stale]
      refine ⟨⟨low, up⟩, apart, ?_⟩
      by_cases member : fNo f j ∈ taken
      · obtain ⟨i, within, at'⟩ := List.getElem_of_mem member
        refine Or.inr ⟨i, by omega, ?_, fun o ho from₀ before' => ?_⟩
        · rw [List.getElem?_append_left within, ← at', List.getElem?_eq_getElem within]
        · have byte := zero o ho
          rwa [← at', holed.page i within o ho, if_pos ⟨from₀, before'⟩] at byte
      · refine Or.inl ⟨fun free => ?_, fun o ho => ?_⟩
        · exact (List.mem_append.mp free).elim member off
        · rw [← holed.data _ member]
          exact zero o ho
  · rintro ⟨tail, clean⟩
    rw [stale] at clean
    refine ⟨fun j lower upper => ?_, fun i lower upper => ?_, fun i hi => ?_⟩
    · obtain ⟨⟨low, up⟩, apart, ⟨lost, _⟩ | ⟨i, within, at', _⟩⟩ := clean j lower upper
      · exact ⟨low, up, apart, fun free => lost (List.mem_append_right _ free)⟩
      · rw [List.getElem?_append_left (by omega)] at at'
        exact before.sole_taken (List.mem_of_getElem? at')
    · by_cases inside : i / 512 < size (s.stores.pool.cell k)
      · rw [old i inside]
        exact tail i lower upper inside
      · by_cases inHole : i / 512 < offset / 512
        · obtain ⟨_, _, ⟨lost, zero⟩ | ⟨j, within, at', zero⟩⟩ := clean (i / 512) (by omega) inHole
          · rw [holed.kept _ inHole, holed.data _ fun member => lost (List.mem_append_left _ member)]
            exact zero _ (by omega)
          · have within' : j < taken.length := by omega
            rw [List.getElem?_append_left within', List.getElem?_eq_getElem within'] at at'
            rw [holed.kept _ inHole, ← Option.some.inj at', holed.page j within' _ (by omega)]
            split
            · exact zero _ (by omega) (by omega) (by omega)
            · rfl
        · rw [new i (by omega) (by omega), if_neg (by omega)]
    · rw [new _ (by omega) (by rw [stop, lastBlock]; omega), if_pos (by omega), Nat.add_sub_cancel_left]

end Hole

/-- A write past the end leaves a zero gap in exactly the states where what
becomes visible is zero and free of other use. -/
theorem fstreamWrite_zeroGap_iff (wf : Consistent L s fl) (live : k ∈ L) (file : isdir (s.stores.pool.cell k) = 0)
    (past : fsize (s.stores.pool.cell k) < offset) (nonempty : 0 < len) (limit : offset + len ≤ FCONTENT_MAX_SIZE)
    (blocks : lastBlock offset len ≤ max (size (s.stores.pool.cell k)) (offset / 512) + fl.length)
    (inodes : pageCount (blknumSize * max (size (s.stores.pool.cell k)) (lastBlock offset len))
      (blknumSize * size (s.stores.pool.cell k)) ≤ s.stores.pool.freeCount 1024) :
    ZeroGap L s (fstreamWrite s k buf len offset).2 k buf offset len ↔ GapClean L s k buf offset len fl := by
  have max : FCONTENT_MAX_SIZE = 4272128 := rfl
  have stop := lastBlock_le limit
  have order := start_le_lastBlock offset len
  by_cases noHole : offset / 512 ≤ size (s.stores.pool.cell k)
  · obtain ⟨taken, fl', stored, after, _⟩ := fstreamWrite_stored buf wf live file noHole limit blocks inodes
    exact stored_zeroGap_iff stored wf after live file past limit noHole le_rfl
  · have hole : size (s.stores.pool.cell k) < offset / 512 := by omega
    obtain ⟨f, listed, bytes, _⟩ := wf.owned.fnodeListing_spec live file
    have stale : (fnodeListing s k).2.f = f := by rw [listed]
    have split : fl = fl.take (lastBlock offset len - offset / 512) ++ fl.drop (lastBlock offset len - offset / 512) :=
      (List.take_append_drop _ fl).symm
    have enough : (fl.take (lastBlock offset len - offset / 512)).length = lastBlock offset len - offset / 512 := by
      rw [List.length_take]
      omega
    generalize fl.take (lastBlock offset len - offset / 512) = taken at *
    generalize fl.drop (lastBlock offset len - offset / 512) = fl' at *
    subst split
    obtain ⟨holed, _⟩ := fstreamWrite_hole buf wf.owned live file wf.list (by omega) stop hole enough listed
      (Or.inr (by
        rw [endOf_file file]
        rwa [Nat.max_eq_right (by omega)] at inodes))
    exact holed_zeroGap_iff holed wf live file hole enough bytes past nonempty limit stale

/-- A first write past the first block puts block 0 into a new file. -/
theorem FirstFile.not_zeroGap {c : List UInt8} (first : FirstFile s k c) (past : 512 ≤ offset)
    (limit : offset + len ≤ FCONTENT_MAX_SIZE) :
    ¬ ZeroGap (insert k {2}) s (fstreamWrite s k buf len offset).2 k buf offset len := by
  rintro ⟨_, _, fl', list', sole⟩
  have wf := first.wellFormed.toConsistent
  have live : k ∈ insert k ({2} : Set Nat) := FirstFile.live
  have max : FCONTENT_MAX_SIZE = 4272128 := rfl
  have stop := lastBlock_le limit
  have order := start_le_lastBlock offset len
  have rows := first.rows
  have spare := first.spare
  obtain ⟨f, listed, bytes, _⟩ := wf.owned.fnodeListing_spec live first.file
  have split := List.take_append_drop (lastBlock offset len - offset / 512) (List.range' 1025 31743)
  have taken : ((List.range' 1025 31743).take (lastBlock offset len - offset / 512)).length =
      lastBlock offset len - offset / 512 := by
    rw [List.length_take, List.length_range']
    omega
  generalize (List.range' 1025 31743).take (lastBlock offset len - offset / 512) = taken at *
  generalize (List.range' 1025 31743).drop (lastBlock offset len - offset / 512) = rest at *
  have pages := pageCount_le (blknumSize * lastBlock offset len) (endOf (s.stores.pool.cell k))
  obtain ⟨holed, _⟩ := fstreamWrite_hole buf wf.owned live
    first.file (show FreeList s.stores (_ ++ rest) by rw [split]; exact wf.list) (by omega) stop (by rw [rows]; omega) ‹_› listed
    (Or.inr (by rw [spare]; omega))
  obtain ⟨g, repaged⟩ := holed.repaged
  have newRows := repaged.resized.size
  have stale : fNo f 0 = 0 := by
    refine Eq.trans ?_ (first.entry (i := 0) (by decide))
    exact Bytes.get32_congr fun j hj => bytes (blknumSize * 0 + j) (Or.inl (by omega))
  have held := sole _ (List.mem_map.mpr ⟨0, List.mem_range.mpr (by rw [newRows]; omega), rfl⟩)
  rw [holed.kept 0 (by omega), stale] at held
  exact absurd held.lower (by decide)

/-- One byte written at 1024 to the empty file `/a`. -/
theorem gap_takes_block_zero : ∃ k fl, (pathToInum firstState (render [[97]])).1.inum = (k : Nat) ∧
    WellFormed {k, 2} firstState fl ∧ firstState.errno = 0 ∧ isdir (firstState.stores.pool.cell k) = 0 ∧
    fsize (firstState.stores.pool.cell k) < 1024 ∧ lastBlock 1024 1 ≤ fl.length ∧
    pageCount (blknumSize * lastBlock 1024 1) 0 ≤ firstState.stores.pool.freeCount 1024 ∧
    ¬ ZeroGap {k, 2} firstState (fstreamWrite firstState k Bytes.zero (1 : Nat) (1024 : Nat)).2 k Bytes.zero 1024 1 := by
  obtain ⟨k, first⟩ := firstState_firstFile
  generalize firstState = s at *
  refine ⟨k, _, first.found, first.wellFormed, first.good.errno, first.file, ?_, ?_, ?_,
    first.not_zeroGap (by decide) (by decide)⟩
  · rw [first.bytes]
    decide
  · rw [List.length_range']
    decide
  · rw [first.spare]
    decide

/-- A write that starts in the first block of the empty file `/a`. -/
theorem fstreamWrite_zeroGap_first : ∃ k, (pathToInum firstState (render [[97]])).1.inum = (k : Nat) ∧
    ZeroGap {k, 2} firstState (fstreamWrite firstState k Bytes.zero (10 : Nat) (100 : Nat)).2 k Bytes.zero 100 10 := by
  obtain ⟨k, first⟩ := firstState_firstFile
  generalize firstState = s at *
  refine ⟨k, first.found, (fstreamWrite_zeroGap_iff first.wellFormed.toConsistent FirstFile.live first.file ?_ (by decide)
    (by decide) ?_ ?_).mpr ⟨fun i _ _ inside => ?_, fun j _ before => ?_⟩⟩
  · rw [first.bytes]
    decide
  · rw [first.rows, List.length_range']
    decide
  · rw [first.rows, first.spare]
    decide
  · rw [first.rows] at inside
    exact absurd inside (Nat.not_lt_zero _)
  · exact absurd before (by omega)

end Sfs
