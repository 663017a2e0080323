import Sfs.Fault
import Sfs.Gap
import Sfs.Shrink

namespace Sfs

/-- The number of list entries on the pages in use for `rows` of them. -/
def pageRows (rows : Nat) : Nat := if rows ≤ 24 then 24 else 24 + 32 * ((rows + 7) / 32)

/-- File `k` has been extended to `offset` bytes with zeros, and no index has
left its array. -/
structure Extended (L : Set Nat) (v : Stores) (s' : State) (k offset : Nat) : Prop where
  ub : s'.ub = false
  size : fsize (s'.stores.pool.cell k) = offset
  content : contentOf s'.stores k = contentOf v k ++ List.replicate (offset - fsize (v.pool.cell k)) 0
  own : OwnBlocks L s'.stores k

/-- File `k`, the free list and the bitmap are as before. -/
structure Refused (v v' : Stores) (k : Nat) : Prop where
  size : fsize (v'.pool.cell k) = fsize (v.pool.cell k)
  blocks : blocksOf v'.pool k = blocksOf v.pool k
  list : ∀ fl, FreeList v fl → FreeList v' fl
  bitmap : v'.pool.free = v.pool.free

/-- The file has been extended, or an error is returned and nothing is changed. -/
def ExtendsOrFails (L : Set Nat) (v : Stores) (o : Int × State) (k offset : Nat) : Prop :=
  o.1 = 0 ∧ Extended L v o.2 k offset ∨ o.1 < 0 ∧ Refused v o.2.stores k

/-- The bytes past the end in the blocks of file `k` are zero. So is what
stands for the list entries behind its last one on the pages in use, and
there are free blocks for the entries on new pages. -/
structure TailClean (L : Set Nat) (v : Stores) (k offset : Nat) (fl : List Nat) : Prop where
  tail : ∀ i, fsize (v.pool.cell k) ≤ i → i < offset → i / 512 < size (v.pool.cell k) →
    v.data (blockNo v.pool k (i / 512)) (i % 512) = 0
  sole : ∀ j, size (v.pool.cell k) ≤ j → j < offset / 512 + 1 → j < pageRows (size (v.pool.cell k)) →
    Sole L v.pool k (fl.drop (offset / 512 + 1 - size (v.pool.cell k))) (blockNo v.pool k j)
  zero : ∀ j, size (v.pool.cell k) ≤ j → j < offset / 512 + 1 → j < pageRows (size (v.pool.cell k)) →
    blockNo v.pool k j ∈ fl.take (offset / 512 + 1 - size (v.pool.cell k)) ∨
      ∀ o < 512, 512 * j + o < offset → v.data (blockNo v.pool k j) o = 0
  room : ∀ j, size (v.pool.cell k) ≤ j → j < offset / 512 + 1 → pageRows (size (v.pool.cell k)) ≤ j →
    j - size (v.pool.cell k) < fl.length

variable {L : Set Nat} {s s' s₁ : State} {fl fl' taken : List Nat} {i j k n o rows offset : Nat} {path : CPath} {f : Bytes}

theorem Consistent.truncated {n : Nat} {v : Int} (wf : Consistent L s fl) (live : k ∈ L)
    (file : isdir (s.stores.pool.cell k) = 0) (limit : n ≤ 8344) (run : truncateTo s k n v = s')
    (pops : Pops s.stores.pool (blknumSize * n) (endOf (s.stores.pool.cell k)) s') :
    ∃ f, Truncated L s s' k n f fl ∧ fsize (s'.stores.pool.cell k) =
      uint32 (if v > FCONTENT_MAX_SIZE then FCONTENT_MAX_SIZE else v) := by
  obtain ⟨f, trunc, bytes, _⟩ := truncateTo_spec wf.owned live file wf.list
    ((wf.blocks.nodup k live file).sublist ((List.drop_sublist _ _).append_right _))
    (fun b member => wf.blocks.area k live file b (List.mem_of_mem_drop member)) limit run pops
  exact ⟨f, trunc, bytes⟩

/-- The entries that a listing finds on the pages in use. -/
theorem filled_blknum (within : j < 8344) (inEntry : o < 4) :
    Filled (blknumSize * rows) (blknumSize * j + o) ↔ j < pageRows rows := by
  simp only [blknumSize, Filled, pageRows]
  by_cases inline : j < 24
  · refine iff_of_true (Or.inl (by omega)) ?_
    split <;> omega
  · have past : 96 ≤ 4 * j + o := by omega
    have leaf : leafOf (4 * j + o) < 264 := (leafOf_lt past).mpr (by omega)
    rw [Wants, pagePtr_leafOf past]
    split <;> omega

theorem le_pageRows (rows : Nat) : rows ≤ pageRows rows := by
  rw [pageRows]
  split <;> omega

namespace Consistent

theorem ownBlocks (wf : Consistent L s fl) (live : k ∈ L) (file : isdir (s.stores.pool.cell k) = 0) :
    OwnBlocks L s.stores k := by
  have whole : Consistent L s ([] ++ fl) := wf
  exact (ownBlocks_iff wf.list).mpr fun _ before => whole.sole_old live file before

/-- A file that has been extended, byte by byte. -/
theorem content_extended_iff (wf : Consistent L s fl) (live : k ∈ L) (file : isdir (s.stores.pool.cell k) = 0)
    (past : fsize (s.stores.pool.cell k) ≤ offset) (bytes : fsize (s'.stores.pool.cell k) = offset)
    (covered : offset ≤ 512 * size (s'.stores.pool.cell k))
    (old : ∀ i < fsize (s.stores.pool.cell k), s'.stores.data (blockNo s'.stores.pool k (i / 512)) (i % 512) =
      s.stores.data (blockNo s.stores.pool k (i / 512)) (i % 512)) :
    contentOf s'.stores k = contentOf s.stores k ++ List.replicate (offset - fsize (s.stores.pool.cell k)) 0 ↔
      ∀ i, fsize (s.stores.pool.cell k) ≤ i → i < offset →
        s'.stores.data (blockNo s'.stores.pool k (i / 512)) (i % 512) = 0 := by
  have coveredOld := wf.covered k live file
  have length := length_contentOf coveredOld
  constructor
  · intro same i lower upper
    have byte := contentOf_getElem? (v := s'.stores) (k := k) (i := i) (by omega) (by omega)
    rw [same, List.getElem?_append_right (by omega), List.getElem?_replicate_of_lt (by omega)] at byte
    exact (Option.some.inj byte).symm
  · intro zero
    refine contentOf_eq (by omega) ?_ fun i before => ?_
    · rw [List.length_append, List.length_replicate]
      omega
    · by_cases inside : i < fsize (s.stores.pool.cell k)
      · rw [List.getElem?_append_left (by omega), contentOf_getElem? inside (by omega), old i inside]
      · rw [List.getElem?_append_right (by omega), List.getElem?_replicate_of_lt (by omega), zero i (by omega) (by omega)]

end Consistent

section Trunc

variable (trunc : Truncated L s s' k n f fl) (wf : Consistent L s fl) (live : k ∈ L)
  (file : isdir (s.stores.pool.cell k) = 0) (limit : n ≤ 8344)

include trunc file limit

/-- The entries on the pages in use are read back from the disk. -/
theorem truncated_number_page (before : j < n) (inPage : j < pageRows (size (s.stores.pool.cell k))) :
    blockNo s'.stores.pool k j = blockNo s.stores.pool k j := by
  have ends := endOf_file file
  rw [trunc.repaged.blockNo_eq file (by simp only [blknumSize]; omega) before]
  refine Bytes.get32_congr fun o ho => trunc.old _ ?_
  rw [ends]
  exact (filled_blknum (by omega) ho).mpr inPage

theorem truncated_number_new (from₀ : size (s.stores.pool.cell k) ≤ j) (before : j < n)
    (beyond : pageRows (size (s.stores.pool.cell k)) ≤ j) :
    blockNo s'.stores.pool k j = (fl[j - size (s.stores.pool.cell k)]?).getD 4294967295 := by
  have ends := endOf_file file
  rw [trunc.repaged.blockNo_eq file (by simp only [blknumSize]; omega) before]
  refine trunc.new j from₀ before fun o ho filled => ?_
  rw [ends] at filled
  exact absurd ((filled_blknum (by omega) ho).mp filled) (by omega)

include wf live

theorem truncated_byte_old (before : j < n) (inside : j < size (s.stores.pool.cell k)) :
    s'.stores.data (blockNo s'.stores.pool k j) = s.stores.data (blockNo s.stores.pool k j) := by
  have nodup := wf.blocks.nodup k live file
  have held : blockNo s.stores.pool k j ∈ (blocksOf s.stores.pool k).take n :=
    List.mem_of_getElem? ((List.getElem?_take_of_lt before).trans (blocksOf_getElem? inside))
  rw [truncated_number_page trunc file limit before (inside.trans_le (le_pageRows _)), trunc.data]
  · intro dropped
    exact List.disjoint_of_nodup_append (by rw [List.take_append_drop]; exact nodup.of_append_left) held dropped
  · intro free
    exact List.disjoint_of_nodup_append nodup (List.mem_of_mem_take held) (List.mem_of_mem_take free)

/-- Whether the blocks are the file's own is a matter of the stale entries and of the free blocks. -/
theorem truncated_ownBlocks_iff (grows : size (s.stores.pool.cell k) < n) : OwnBlocks L s'.stores k ↔
    (∀ j, size (s.stores.pool.cell k) ≤ j → j < n → j < pageRows (size (s.stores.pool.cell k)) →
      Sole L s.stores.pool k (fl.drop (n - size (s.stores.pool.cell k))) (blockNo s.stores.pool k j)) ∧
    ∀ j, size (s.stores.pool.cell k) ≤ j → j < n → pageRows (size (s.stores.pool.cell k)) ≤ j →
      j - size (s.stores.pool.cell k) < fl.length := by
  have rows := trunc.repaged.resized.size
  have none : (blocksOf s.stores.pool k).drop n = [] := List.drop_eq_nil_of_le (by rw [length_blocksOf]; exact grows.le)
  have list := trunc.list
  rw [none, List.reverse_nil, List.nil_append] at list
  have split := List.take_append_drop (n - size (s.stores.pool.cell k)) fl
  have wf' : Consistent L s (fl.take (n - size (s.stores.pool.cell k)) ++ fl.drop (n - size (s.stores.pool.cell k))) := by
    rwa [split]
  rw [wf'.ownBlocks_iff_new live file list (trunc.repaged.others wf.owned live) fun j inside =>
    truncated_number_page trunc file limit (inside.trans grows) (inside.trans_le (le_pageRows _))]
  simp only [rows]
  constructor
  · refine fun own => ⟨fun j lower upper inPage => ?_, fun j lower upper beyond => ?_⟩
    · rw [← truncated_number_page trunc file limit upper inPage]
      exact own j lower upper
    · have sole := own j lower upper
      rw [truncated_number_new trunc file limit lower upper beyond] at sole
      by_contra past
      rw [List.getElem?_eq_none (Nat.le_of_not_lt past)] at sole
      exact absurd sole.upper (by decide)
  · rintro ⟨sole, room⟩ j lower upper
    by_cases inPage : j < pageRows (size (s.stores.pool.cell k))
    · rw [truncated_number_page trunc file limit upper inPage]
      exact sole j lower upper inPage
    · have within := room j lower upper (Nat.le_of_not_lt inPage)
      rw [truncated_number_new trunc file limit lower upper (Nat.le_of_not_lt inPage),
        List.getElem?_eq_getElem within]
      refine wf'.sole_taken ?_
      have taken : j - size (s.stores.pool.cell k) < n - size (s.stores.pool.cell k) := Nat.sub_lt_sub_right lower upper
      exact List.mem_of_getElem? ((List.getElem?_take_of_lt taken).trans (List.getElem?_eq_getElem within))

/-- What `sfs_truncate` finds behind the last block decides whether the file is extended with zeros. -/
theorem truncated_extended_iff (count : n = offset / 512 + 1) (past : fsize (s.stores.pool.cell k) ≤ offset)
    (bytes : fsize (s'.stores.pool.cell k) = offset) :
    Extended L s.stores s' k offset ↔ s.ub = false ∧ TailClean L s.stores k offset fl := by
  have rows := trunc.repaged.resized.size
  have covered := wf.covered k live file
  have old : ∀ i < fsize (s.stores.pool.cell k), s'.stores.data (blockNo s'.stores.pool k (i / 512)) (i % 512) =
      s.stores.data (blockNo s.stores.pool k (i / 512)) (i % 512) := fun i before => by
    rw [truncated_byte_old trunc wf live file limit (by omega) (by omega)]
  have contentIff := wf.content_extended_iff live file past bytes (by omega) old
  have ownIff := truncated_ownBlocks_iff trunc wf live file limit
  -- a stale entry that the loop does not take leads to an unchanged block
  have stale : ∀ j, size (s.stores.pool.cell k) ≤ j → j < n → j < pageRows (size (s.stores.pool.cell k)) →
      blockNo s.stores.pool k j ∉ fl.take (n - size (s.stores.pool.cell k)) →
      s'.stores.data (blockNo s'.stores.pool k j) = s.stores.data (blockNo s.stores.pool k j) := by
    intro j lower upper inPage lost
    have none : (blocksOf s.stores.pool k).drop n = [] :=
      List.drop_eq_nil_of_le (by rw [length_blocksOf]; omega)
    rw [truncated_number_page trunc file limit upper inPage, trunc.data _ (by rw [none]; exact List.not_mem_nil) lost]
  subst count
  constructor
  · rintro ⟨ub, _, content, own⟩
    have zero := contentIff.mp content
    refine ⟨trunc.ub.symm.trans ub, fun i lower upper inside => ?_, fun j lower upper inPage => ?_,
      fun j lower upper inPage => ?_, fun j lower upper beyond => ?_⟩
    · rw [← truncated_byte_old trunc wf live file limit (by omega) inside]
      exact zero i lower upper
    · exact ((ownIff (by omega)).mp own).1 j lower upper inPage
    · by_cases taken : blockNo s.stores.pool k j ∈ fl.take (offset / 512 + 1 - size (s.stores.pool.cell k))
      · exact Or.inl taken
      · refine Or.inr fun o ho before => ?_
        have byte := zero (512 * j + o) (by omega) before
        have index : (512 * j + o) / 512 = j := by omega
        have place : (512 * j + o) % 512 = o := by omega
        rwa [index, place, stale j lower upper inPage taken] at byte
    · exact ((ownIff (by omega)).mp own).2 j lower upper beyond
  · rintro ⟨clean, tail, sole, zero, room⟩
    refine ⟨trunc.ub.trans clean, bytes, contentIff.mpr fun i lower upper => ?_, ?_⟩
    · by_cases inside : i / 512 < size (s.stores.pool.cell k)
      · rw [truncated_byte_old trunc wf live file limit (by omega) inside]
        exact tail i lower upper inside
      · have from₀ : size (s.stores.pool.cell k) ≤ i / 512 := Nat.le_of_not_lt inside
        have within : i / 512 < offset / 512 + 1 := by omega
        by_cases inPage : i / 512 < pageRows (size (s.stores.pool.cell k))
        · by_cases taken : blockNo s.stores.pool k (i / 512) ∈ fl.take (offset / 512 + 1 - size (s.stores.pool.cell k))
          · rw [truncated_number_page trunc file limit within inPage, trunc.zero _ taken]
          · rw [stale _ from₀ within inPage taken]
            exact (zero _ from₀ within inPage).resolve_left taken _ (by omega) (by omega)
        · have free := room _ from₀ within (Nat.le_of_not_lt inPage)
          have taken := Nat.sub_lt_sub_right from₀ within
          rw [truncated_number_new trunc file limit from₀ within (Nat.le_of_not_lt inPage),
            List.getElem?_eq_getElem free, Option.getD_some, trunc.zero]
          exact List.mem_of_getElem? ((List.getElem?_take_of_lt taken).trans (List.getElem?_eq_getElem free))
    · by_cases grows : size (s.stores.pool.cell k) < offset / 512 + 1
      · exact (ownIff grows).mpr ⟨sole, room⟩
      · have fits := wf.owned.fits k live
        obtain ⟨_, step⟩ := trunc.shrink file fits (Nat.le_of_not_lt grows)
        have file' : isdir (s'.stores.pool.cell k) = 0 := by rw [trunc.repaged.resized.isdir_eq]; exact file
        exact (step.consistent wf live file (by omega)).ownBlocks live file'

end Trunc

/-- The condition under which `sfs_truncate` extends a file as it should: the
lookup stays within its arrays, the size is below the limit, there are
inodes for the pages, and what becomes visible is zero and free of other use. -/
structure Extendable (L : Set Nat) (s : State) (path : CPath) (k offset : Nat) (fl : List Nat) : Prop where
  lookup : (pathToInum s path).2.ub = false
  limit : offset < FCONTENT_MAX_SIZE
  inodes : pageCount (blknumSize * (offset / 512 + 1)) (blknumSize * size (s.stores.pool.cell k)) ≤
    s.stores.pool.freeCount 1024
  clean : TailClean L s.stores k offset fl

section

variable (wf : Consistent L s fl) (live : k ∈ L) (file : isdir (s.stores.pool.cell k) = 0)
  (found : (pathToInum s path).1.inum = k) (past : fsize (s.stores.pool.cell k) ≤ offset)

include wf live file found past

/-- Below the limit, with inodes enough, a file is extended exactly if what is
behind it is clean. -/
theorem sfsTruncate_extended_iff (limit : offset < FCONTENT_MAX_SIZE)
    (inodes : pageCount (blknumSize * (offset / 512 + 1)) (blknumSize * size (s.stores.pool.cell k)) ≤
      s.stores.pool.freeCount 1024) :
    Extended L s.stores (sfsTruncate s path offset).2 k offset ↔
      (pathToInum s path).2.ub = false ∧ TailClean L s.stores k offset fl := by
  have glance := pathToInum_glance s path
  have range := wf.owned.node_range live
  have max : FCONTENT_MAX_SIZE = 4272128 := rfl
  generalize after : (pathToInum s path).2 = s₁ at glance
  have same := glance.stores_eq
  have file₁ : isdir (s₁.stores.pool.cell k) = 0 := by rw [same]; exact file
  have past₁ : fsize (s₁.stores.pool.cell k) ≤ offset := by simp only [same]; exact past
  rw [sfsTruncate_eq found after (by omega) (newBlocks_eq (by omega)), int32_of_mem (x := offset) (by omega) (by omega)]
  generalize run : truncateTo s₁ k (offset / 512 + 1) offset = s'
  obtain ⟨f, trunc, bytes⟩ := (glance.consistent wf).truncated live file₁ (by omega) run
    (Or.inr (by rw [endOf_file file₁]; simp only [same]; exact inodes))
  have newSize : fsize (s'.stores.pool.cell k) = offset := by
    rw [bytes, if_neg (by omega), uint32]
    omega
  have main := truncated_extended_iff trunc (glance.consistent wf) live file₁ (by omega) rfl past₁ newSize
  rwa [same] at main

/-- A file that has been extended was looked up within the arrays, and its size is below the limit. -/
theorem Extended.bounds (extended : Extended L s.stores (sfsTruncate s path offset).2 k offset) :
    (pathToInum s path).2.ub = false ∧ offset < FCONTENT_MAX_SIZE := by
  have glance := pathToInum_glance s path
  have range := wf.owned.node_range live
  have max : FCONTENT_MAX_SIZE = 4272128 := rfl
  have bound : offset < 4294967296 := by
    rw [← extended.size, Sfs.fsize]
    exact Bytes.get32_lt _ _
  have ub := extended.ub
  generalize after : (pathToInum s path).2 = s₁ at glance
  have same := glance.stores_eq
  have wf₁ := glance.consistent wf
  have file₁ : isdir (s₁.stores.pool.cell k) = 0 := by rw [same]; exact file
  rw [sfsTruncate_eq found after (by omega) (newBlocks_eq bound)] at ub
  replace ub : (truncateTo s₁ k (offset / 512 + 1) (int32 offset)).ub = false := ub
  constructor
  · by_contra bad
    have left := truncateTo_faulted (n := offset / 512 + 1) (k := k) (v := int32 offset) (Bool.not_eq_false _ ▸ bad)
    rw [left] at ub
    exact absurd ub (by decide)
  · by_contra beyond
    have left := truncateTo_overflow (v := int32 offset) wf₁.owned live file₁ (show 8344 < offset / 512 + 1 by omega)
    rw [left] at ub
    exact absurd ub (by decide)

/-- `sfs_truncate` to a size that is not smaller pads with zeros in the
states that are extendable, and where there are inodes enough in no others. -/
theorem sfsTruncate_extends_iff :
    (Extendable L s path k offset fl → ExtendsOrFails L s.stores (sfsTruncate s path offset) k offset) ∧
      (pageCount (blknumSize * (offset / 512 + 1)) (blknumSize * size (s.stores.pool.cell k)) ≤
          s.stores.pool.freeCount 1024 →
        ExtendsOrFails L s.stores (sfsTruncate s path offset) k offset → Extendable L s path k offset fl) := by
  have zero := sfsTruncate_fst offset found
  constructor
  · rintro ⟨lookup, limit, inodes, clean⟩
    exact Or.inl ⟨zero, (sfsTruncate_extended_iff wf live file found past limit inodes).mpr ⟨lookup, clean⟩⟩
  · intro inodes outcome
    have extended := (outcome.resolve_right fun failed => by omega).2
    obtain ⟨lookup, limit⟩ := extended.bounds wf live file found past
    exact ⟨lookup, limit, inodes, ((sfsTruncate_extended_iff wf live file found past limit inodes).mp extended).2⟩

end

/-- The first list entry of a new file is 0, and it is on a page in use. -/
theorem FirstFile.not_extends {c : List UInt8} (first : FirstFile s k c) (limit : offset < FCONTENT_MAX_SIZE) :
    ¬ ExtendsOrFails (insert k {2}) s.stores (sfsTruncate s (render [c]) offset) k offset := by
  intro outcome
  have zero := sfsTruncate_fst offset first.found
  have extended := (outcome.resolve_right fun failed => by omega).2
  have rows := first.rows
  have pages := pageCount_le (blknumSize * (offset / 512 + 1)) (blknumSize * size (s.stores.pool.cell k))
  have clean := ((sfsTruncate_extended_iff first.wellFormed.toConsistent FirstFile.live first.file first.found
    (by rw [first.bytes]; omega) limit (by rw [first.spare]; omega)).mp extended).2
  have sole := clean.sole 0 (by omega) (by omega) (by rw [rows]; decide)
  rw [first.entry (by decide)] at sole
  exact absurd sole.lower (by decide)

/-- Setting the size of the empty file `/a` to 0 puts block 0 into it. -/
theorem truncate_takes_block_zero : ∃ k fl, (pathToInum firstState (render [[97]])).1.inum = (k : Nat) ∧
    WellFormed {k, 2} firstState fl ∧ firstState.errno = 0 ∧ isdir (firstState.stores.pool.cell k) = 0 ∧
    fsize (firstState.stores.pool.cell k) = 0 ∧ fl.length = 31743 ∧ firstState.stores.pool.freeCount 1024 = 1020 ∧
    ¬ ExtendsOrFails {k, 2} firstState.stores (sfsTruncate firstState (render [[97]]) (0 : Nat)) k 0 := by
  obtain ⟨k, first⟩ := firstState_firstFile
  generalize firstState = s at *
  exact ⟨k, _, first.found, first.wellFormed, first.good.errno, first.file, first.bytes, List.length_range', first.spare,
    first.not_extends (by decide)⟩

theorem Glance.cleared (s : State) : ∃ s', Glance s s' ∧ s'.ub = false := ⟨{ s with ub := false }, rfl, rfl⟩

/-- The file `/a` of 600 bytes is extended to 700. -/
theorem sfsTruncate_extends_first : ∃ (s : State) (k : Nat),
    Glance (step firstState (.write (render [[97]]) Bytes.zero 600 0)) s ∧
    (pathToInum s (render [[97]])).1.inum = (k : Nat) ∧ fsize (s.stores.pool.cell k) = 600 ∧
    ExtendsOrFails {k, 2} s.stores (sfsTruncate s (render [[97]]) (700 : Nat)) k 700 := by
  obtain ⟨k, first⟩ := firstState_firstFile
  have max : (600 : Nat) ≤ FCONTENT_MAX_SIZE := by decide
  obtain ⟨fl, good, wf, leads, file, bytes, rows, zero⟩ := first.written Bytes.zero max
  generalize step firstState (.write (render [[97]]) Bytes.zero 600 0) = t at *
  obtain ⟨s, glance, clean⟩ := Glance.cleared t
  have good := good.glance glance
  have wf := glance.consistent wf.toConsistent
  have same := glance.stores_eq
  rw [← same] at leads file bytes rows zero
  have live : k ∈ insert k ({2} : Set Nat) := FirstFile.live
  have found := good.found_top first.plain leads
  have two : lastBlock 0 600 = 2 := by decide
  rw [two] at rows zero
  refine ⟨s, k, glance, found, bytes,
    (sfsTruncate_extends_iff wf live file found (by rw [bytes]; omega)).1 ⟨?_, by decide, ?_, ?_⟩⟩
  · obtain ⟨s', run, _, ub⟩ := pathToInum_spec [] good.owned good.tree (by simp) first.plain rfl good.tree.top.dir
    rw [List.nil_append] at run ub
    rw [run]
    exact (ub (by decide)).trans clean
  · rw [rows]
    exact (show pageCount (blknumSize * (700 / 512 + 1)) (blknumSize * 2) = 0 by decide).le.trans (Nat.zero_le _)
  · refine ⟨fun i past before _ => zero i (by omega) (by omega), fun j past before => ?_, fun j past before => ?_,
      fun j past before => ?_⟩
    all_goals
      rw [rows] at past
      omega

end Sfs
