import Sfs.Success

namespace Sfs

/-- File `k` has its size and bytes and blocks for them. What is free is as
before, and so are the other nodes. -/
structure NothingLost (L : Set Nat) (s s' : State) (k : Nat) (fl : List Nat) : Prop where
  size : fsize (s'.stores.pool.cell k) = fsize (s.stores.pool.cell k)
  content : contentOf s'.stores k = contentOf s.stores k
  covered : fsize (s'.stores.pool.cell k) ≤ 512 * Sfs.size (s'.stores.pool.cell k)
  blocks : ∃ fl', FreeList s'.stores fl' ∧ ∀ b, b ∈ fl' ↔ b ∈ fl
  inodes : ∀ q < 1024, s'.stores.pool.free q = s.stores.pool.free q
  others : ∀ m ∈ L, m ≠ k → Untouched s s' m

/-- No index has left its array, and with a negative result nothing is lost. -/
def FailsClean (L : Set Nat) (s : State) (o : Int × State) (k : Nat) (fl : List Nat) : Prop :=
  o.2.ub = false ∧ (o.1 < 0 → NothingLost L s o.2 k fl)

/-- The arguments of `fstream_write` and the end of the transfer are not negative as `int`. -/
def Representable (size offset : Nat) : Prop :=
  0 ≤ int32 size ∧ 0 ≤ int32 offset ∧ int32 offset + int32 size < 2147483648

/-- The size of a file after a write of `len` bytes. -/
def grownSize (s : State) (k offset len : Nat) : Nat :=
  min (max (fsize (s.stores.pool.cell k)) (offset + len)) FCONTENT_MAX_SIZE

/-- The write has what it needs, or there is nothing to be lost: no free
inode, no free block, and no change of the size. -/
structure SafeWrite (s : State) (path : CPath) (k size offset : Nat) (fl : List Nat) : Prop where
  lookup : (pathToInum s path).2.ub = false
  range : Representable size offset
  supply : Enough s k (int32 offset).toNat (int32 size).toNat fl ∨
    fl = [] ∧ s.stores.pool.freeCount 1024 = 0 ∧
      grownSize s k (int32 offset).toNat (int32 size).toNat = fsize (s.stores.pool.cell k)

variable {L : Set Nat} {s s' t t' : State} {fl fl' : List Nat} {k m n offset len : Nat} {buf f blkbuf : Bytes} {r v : Int}

theorem readBlocks_faulted {bSize bEnd i : Int} {ptr : Nat} : Faulted s (readBlocks s bSize bEnd i buf ptr n).2 := by
  induction n generalizing s i buf ptr with
  | zero => exact id
  | succ n ih =>
    rw [readBlocks]
    split
    · exact (Faulted.fault _).trans ih
    · exact id

theorem writeBlocks_faulted {bSize bEnd i : Int} {ptr : Nat} : Faulted s (writeBlocks s bSize bEnd i buf ptr n).2 := by
  induction n generalizing s i ptr with
  | zero => exact id
  | succ n ih =>
    rw [writeBlocks]
    generalize (FENTRY_MAX_SIZE : Int) = limit
    generalize ptr + BLOCK_SIZE = next
    split
    · dsimp only
      split
      · refine Faulted.trans (Faulted.trans (.fault (fBad i)) (.of_eq ?_)) ih
        rw [blockWrite_ub, note_ub]
      · have taken : (freeBlockAllocate s (some fun j => buf (ptr + j))).2.ub = s.ub := freeBlockAllocate_ub s
        generalize freeBlockAllocate s (some fun j => buf (ptr + j)) = o at *
        split
        · exact .of_eq taken
        · refine Faulted.trans (fun bad => ?_) ih
          rw [fSet_ub, taken, bad, Bool.true_or]
    · exact id

theorem NothingLost.start_from (lost : NothingLost L t s' k fl) (same : t.stores = s.stores) : NothingLost L s s' k fl := by
  obtain ⟨size, content, covered, blocks, inodes, others⟩ := lost
  rw [same] at size content inodes
  refine ⟨size, content, covered, blocks, inodes, fun m live ne => ?_⟩
  obtain ⟨inode, listing, bytes⟩ := others m live ne
  rw [same] at inode listing bytes
  exact ⟨inode, listing, bytes⟩

theorem Enough.start_from (enough : Enough t k offset len fl) (same : t.stores = s.stores) : Enough s k offset len fl := by
  obtain ⟨start, blocks, inodes⟩ := enough
  rw [same] at blocks inodes
  exact ⟨start, blocks, inodes⟩

/-- The loop stops where a block is missing. -/
theorem writeBlocks_short {rows bEnd i ptr : Nat} (before : i < bEnd) (limit : i < 8344) (past : rows ≤ i)
    (failed : freeBlockAllocate s (some fun j => blkbuf (ptr + j)) = (-1, t)) :
    writeBlocks s rows bEnd i blkbuf ptr (bEnd - i) = (↑i, t) := by
  obtain ⟨n, rounds⟩ : ∃ n, bEnd - i = n + 1 := ⟨bEnd - i - 1, by omega⟩
  have inside : (i : Int) < bEnd ∧ (i : Int) < FENTRY_MAX_SIZE := ⟨by omega, by simp only [FENTRY_MAX_SIZE]; omega⟩
  have behind : ¬ (i : Int) < rows := by omega
  rw [rounds, writeBlocks, if_pos inside]
  dsimp only
  rw [if_neg behind, failed]
  exact if_pos (show (-1 : Int) < 0 by decide)

/-- It takes no block past the limit. -/
theorem writeBlocks_past {bSize bEnd : Int} {i ptr : Nat} (past : 8344 ≤ i) :
    writeBlocks s bSize bEnd i blkbuf ptr n = (↑i, s) := by
  have limit : ¬ (i : Int) < FENTRY_MAX_SIZE := by
    simp only [FENTRY_MAX_SIZE]
    omega
  cases n with
  | zero => rfl
  | succ n => rw [writeBlocks, if_neg fun both => limit both.2]

/-- Where nothing is asked of an empty free list, and where all is past the
limit, the loop stops where it starts. -/
theorem writeBlocks_idle {rows : Nat} (list : FreeList s.stores fl)
    (cases : (offset = 0 ∧ len = 0 ∧ rows = 0 ∧ fl = []) ∨ 8344 < offset / 512 ∧ rows = 8344) (blkbuf : Bytes) :
    ∃ (e : Nat) (t : State), t.stores = s.stores ∧ t.f = s.f ∧
      writeBlocks s rows (lastBlock offset len) (offset / 512 : Nat) blkbuf 0 (lastBlock offset len - offset / 512) = (↑e, t) ∧
      (rows = e ∨ 8344 < e ∧ rows = 8344) := by
  rcases cases with ⟨rfl, rfl, empty, rfl⟩ | ⟨past, full⟩
  · obtain ⟨t, failed, stores, same, _⟩ := freeBlockAllocate_nil (some fun j => blkbuf (0 + j)) list
    exact ⟨0, t, stores, same, writeBlocks_short (by decide) (by decide) empty.le failed, Or.inl empty⟩
  · exact ⟨offset / 512, s, rfl, rfl, writeBlocks_past past.le, Or.inr ⟨past, full⟩⟩

theorem inodeSetAttrUpc_faulted : Faulted s (inodeSetAttrUpc s k v) := .of_eq inodeSetAttrUpc_ub

/-- A write whose numbers are out of range has left its arrays. -/
theorem fstreamWrite_outOfRange {inum size offset : Int}
    (bad : (decide ((int32 (offset + size - 1)).tdiv BLOCK_SIZE + 1 < offset.tdiv BLOCK_SIZE) ||
      decide (int32 (offset + size) ≠ offset + size) || decide (offset < 0) || decide (size < 0)) = true) :
    (fstreamWrite s inum buf size offset).2.ub = true := by
  simp only [fstreamWrite, bad]
  refine (readBlocks_faulted.trans (writeBlocks_faulted.trans
    (inodeSetAttrUpc_faulted.trans fnodeListingSet_faulted))) ?_
  exact Bool.or_true _

theorem freeInodePop_cell (s : State) : (freeInodePop s).2.stores.pool.cell = s.stores.pool.cell := by
  rcases freeInodePop_cases s with ⟨q, disk, _, _, _, _, stores⟩ | ⟨run, _⟩
  · rw [stores, Stores.setPool_pool, Pool.take_cell]
  · rw [run]
    exact congrArg (fun v => v.pool.cell) (stores_congr rfl)

theorem stores_buffers (s : State) (x y : Bytes) :
    ({ s with blockBuf := x, superBlockBuf := y } : State).stores = s.stores := stores_congr rfl

theorem freeBlockUnlink_pool (s : State) (b : Int) : (freeBlockUnlink s b).stores.pool = s.stores.pool := by
  rw [freeBlockUnlink_eq, stores_superblockWrite, Stores.setSup_pool, stores_buffers]

theorem superblockRead_stores (s : State) : (superblockRead s).stores = s.stores := by
  rw [superblockRead_eq, stores_buffers]

theorem freeBlockPop_pool (s : State) : (freeBlockPop s).2.stores.pool = s.stores.pool := by
  have read := superblockRead_stores s
  unfold freeBlockPop
  generalize superblockRead s = t at *
  dsimp only
  generalize freeBlockHead t.superBlockBuf = head
  rw [stores_note]
  split
  · rw [freeBlockUnlink_pool, read]
  · rw [stores_errnoPush, read]

/-- The error branch takes an inode and a block, and no more. -/
theorem afterWrite_cell (o : Int × State) : (afterWrite o).2.stores.pool.cell = o.2.stores.pool.cell := by
  rw [afterWrite]
  split
  · rw [stores_errnoPop, freeBlockPop_pool, stores_errnoPop, freeInodePop_cell]
  · rfl

theorem afterWrite_fst (o : Int × State) : (afterWrite o).1 = o.1 := by
  rw [afterWrite]
  split <;> rfl

/-- A write that has taken no inode and no block. -/
structure Idle (L : Set Nat) (s t : State) (k : Nat) (fl : List Nat) : Prop where
  size : fsize (t.stores.pool.cell k) = fsize (s.stores.pool.cell k)
  rows : Sfs.size (t.stores.pool.cell k) = Sfs.size (s.stores.pool.cell k)
  content : contentOf t.stores k = contentOf s.stores k
  list : FreeList t.stores fl
  free : t.stores.pool.free = s.stores.pool.free
  others : ∀ m ∈ L, m ≠ k → Untouched s t m

theorem Idle.congr (idle : Idle L s t k fl) (same : t'.stores = t.stores) : Idle L s t' k fl := by
  obtain ⟨size, rows, content, list, free, others⟩ := idle
  rw [← same] at size rows content list free
  refine ⟨size, rows, content, list, free, fun m live ne => ?_⟩
  obtain ⟨inode, listing, bytes⟩ := others m live ne
  rw [← same] at inode listing bytes
  exact ⟨inode, listing, bytes⟩

/-- An error may be recorded before or after the size. -/
theorem errnoPush_inodeSetAttrUpc (t : State) (small : k < 65536) (v err : Int) :
    errnoPush (inodeSetAttrUpc t k v) err = inodeSetAttrUpc (errnoPush t err) k v := by
  have load : inodeLoad (errnoPush t err) k = inodeLoad t k := inodeLoad_congr rfl k
  simp only [inodeSetAttrUpc, load, inodeDump_eq small]
  rfl

/-- A list that is too long is cut to its largest length. -/
theorem fnodeListingSet_cut (long : 8344 < n) :
    fnodeListingSet s k n = fnodeListingSet (errnoPush s (-EFBIG)) k (8344 : Nat) := by
  have beyond : (n : Int) > FENTRY_MAX_SIZE := by
    simp only [FENTRY_MAX_SIZE]
    omega
  have fits : ¬ ((8344 : Nat) : Int) > FENTRY_MAX_SIZE := by decide
  rw [fnodeListingSet, fnodeListingSet, if_pos beyond, if_neg fits]
  rfl

section

variable (wf : Consistent L s fl) (live : k ∈ L) (file : isdir (s.stores.pool.cell k) = 0)

include wf live file

/-- The same list and the same size are recorded again. -/
theorem record_idle (stores : t.stores = s.stores)
    (number : ∀ i < size (s.stores.pool.cell k), fNo t.f i = blockNo s.stores.pool k i)
    (value : uint32 (if v > FCONTENT_MAX_SIZE then FCONTENT_MAX_SIZE else v) = fsize (s.stores.pool.cell k)) :
    Idle L s (fnodeListingSet (inodeSetAttrUpc t k v) k (size (s.stores.pool.cell k))) k fl := by
  have limit := wf.rows_le live file
  have ends := endOf_file file
  have entry : entrySize (s.stores.pool.cell k) = blknumSize := if_neg (not_not.mpr file)
  generalize run : fnodeListingSet (inodeSetAttrUpc t k v) k (size (s.stores.pool.cell k)) = t'
  obtain ⟨⟨repaged, bytes, rest, _⟩, _⟩ := record_spec (t := t) (by rw [stores]; exact wf.owned) live
    (by rw [stores]; exact file) limit run (.of_le (by rw [stores, ends]))
  rw [stores] at repaged rest
  have data : t'.stores.data = s.stores.data := by rw [rest, Stores.setPool_data]
  have sup : t'.stores.sup = s.stores.sup := by rw [rest, Stores.setPool_sup]
  have blocks : blocksOf t'.stores.pool k = blocksOf s.stores.pool k := by
    rw [repaged.blocksOf_eq file (by simp only [blknumSize]; omega), blocksOf]
    exact List.map_congr_left fun i member => number i (List.mem_range.mp member)
  have size' : fsize (t'.stores.pool.cell k) = fsize (s.stores.pool.cell k) := bytes.trans value
  refine ⟨size', repaged.resized.size, ?_, wf.list.congr sup fun b _ => by rw [data], ?_, fun m live' ne => ?_⟩
  · rw [contentOf, contentOf, blocks, data, size']
  · exact repaged.free_eq wf.owned live fun i => by rw [entry, ends]
  · exact (repaged.same wf.owned live live' ne).untouched (wf.owned.fits m live') fun _ b _ => by rw [data]

/-- The error branch keeps everything only where there is nothing to take. -/
theorem afterWrite_keeps_iff (idle : Idle L s t k fl) (failed : r < 0) :
    NothingLost L s (afterWrite (r, t)).2 k fl ↔ fl = [] ∧ s.stores.pool.freeCount 1024 = 0 := by
  have after : (afterWrite (r, t)).2.stores = (freeBlockPop (errnoPop (freeInodePop t).2).2).2.stores := by
    rw [afterWrite, if_pos failed, stores_errnoPop]
  have spare : t.stores.pool.freeCount 1024 = s.stores.pool.freeCount 1024 := by rw [Pool.freeCount, Pool.freeCount, idle.free]
  rw [← spare]
  constructor
  · intro kept
    have none : t.stores.pool.freeCount 1024 = 0 := by
      rcases freeInodePop_cases t with ⟨q, disk, _, within, isFree, _, taken⟩ | ⟨_, none⟩
      · have same := kept.inodes q within
        rw [after, freeBlockPop_pool, stores_errnoPop, taken, Stores.setPool_pool, ← idle.free, isFree] at same
        exact absurd rfl ((Pool.take_free_iff _).mp same).2
      · exact Pool.freeCount_eq_zero.mpr none
    obtain ⟨t₁, popped, stores, _⟩ := freeInodePop_none none
    rw [popped] at after
    have list : FreeList (errnoPop t₁).2.stores fl := by
      rw [stores_errnoPop, stores]
      exact idle.list
    refine ⟨?_, none⟩
    cases fl with
    | nil => rfl
    | cons b fl =>
      obtain ⟨u, run, unlinked, _⟩ := freeBlockPop_cons list
      obtain ⟨fl', list', members⟩ := kept.blocks
      rw [after, run] at list'
      obtain rfl := list'.unique unlinked.list
      exact absurd ((members b).mpr List.mem_cons_self) (List.nodup_cons.mp idle.list.nodup).1
  · rintro ⟨rfl, none⟩
    obtain ⟨t₁, popped, stores, _⟩ := freeInodePop_none none
    rw [popped] at after
    obtain ⟨u, run, stores', _⟩ := freeBlockPop_nil (s := (errnoPop t₁).2) (by
      rw [stores_errnoPop, stores]
      exact idle.list)
    have same : (afterWrite (r, t)).2.stores = t.stores := by
      rw [after, run, stores', stores_errnoPop, stores]
    have idle' := idle.congr same
    refine ⟨idle'.size, idle'.content, ?_, ⟨[], idle'.list, fun _ => Iff.rfl⟩, fun q _ => congrFun idle'.free q, idle'.others⟩
    rw [idle'.size, idle'.rows]
    exact wf.covered k live file

variable (small : offset + len < 2147483648)

include small

/-- What a write records as the size, whether or not it has had what it needs. -/
theorem fstreamWrite_fsize (buf : Bytes) :
    fsize ((fstreamWrite s k buf len offset).2.stores.pool.cell k) = grownSize s k offset len := by
  have limit := wf.rows_le live file
  have range := wf.owned.node_range live
  have covered := wf.covered k live file
  obtain ⟨t, e, pool, _, _, run⟩ := fstreamWrite_steps wf live file small buf
  have marked : Marked L t.stores.pool := by rw [pool]; exact wf.owned.toMarked
  obtain ⟨x, _, stores, header, bytes⟩ := inodeSetAttrUpc_spec marked live (by rw [pool]; exact file)
    (newFsize (s.stores.pool.cell k) (offset + len))
  generalize inodeSetAttrUpc t k (newFsize (s.stores.pool.cell k) (offset + len)) = t₁ at *
  have loaded : inodeLoad t₁ k = x := by
    rw [inodeLoad_cell (by omega) (by omega), stores, Stores.setPool_pool, Pool.write_cell_self]
  have rows : size x = size (s.stores.pool.cell k) := by
    rw [← pool]
    exact Bytes.get16_congr (header _ (by omega)) (header _ (by omega))
  have own : ino x = k := by
    rw [← wf.owned.own k live, ← pool]
    exact Bytes.get16_congr (header _ (by omega)) (header _ (by omega))
  have kept := fnodeListingSet_fsize (s := t₁) (k := k) (n := max (size (s.stores.pool.cell k)) e)
    (by rw [loaded, rows]; exact Nat.le_max_left _ _) (by rw [loaded, rows]; exact limit) (by omega) (by omega)
    (by rw [loaded, own])
  rw [run]
  generalize fnodeListingSet t₁ k (max (size (s.stores.pool.cell k)) e : Nat) = t₂ at *
  have same : (errnoPop t₂).2.stores = t₂.stores := stores_errnoPop t₂
  dsimp only
  rw [same, ← inodeLoad_cell (by omega) (by omega), kept, loaded, bytes, newFsize_eq (by omega), grownSize]

/-- A write that lacks something and still has the size as it was. -/
theorem lack_cases (lack : ¬ Enough s k offset len fl) (kept : grownSize s k offset len = fsize (s.stores.pool.cell k)) :
    (offset = 0 ∧ len = 0 ∧ size (s.stores.pool.cell k) = 0 ∧ fl = []) ∨
      8344 < offset / 512 ∧ size (s.stores.pool.cell k) = 8344 := by
  have max : FCONTENT_MAX_SIZE = 4272128 := rfl
  have limit := wf.rows_le live file
  have covered := wf.covered k live file
  have none : ∀ n ≤ size (s.stores.pool.cell k), pageCount (blknumSize * n) (blknumSize * size (s.stores.pool.cell k)) = 0 :=
    fun n within => pageCount_of_le (Nat.mul_le_mul_left _ within)
  rw [grownSize] at kept
  by_contra neither
  obtain ⟨notEmpty, notFull⟩ := not_or.mp neither
  have start : offset / 512 ≤ size (s.stores.pool.cell k) := by omega
  have last : min (lastBlock offset len) 8344 ≤ size (s.stores.pool.cell k) ∨
      min (lastBlock offset len) 8344 = 1 ∧ 0 < fl.length ∧ size (s.stores.pool.cell k) = 0 := by
    rw [lastBlock]
    rcases Nat.eq_zero_or_pos (offset + len) with zero | positive
    · rcases Nat.eq_zero_or_pos (size (s.stores.pool.cell k)) with empty | more
      · refine Or.inr ⟨by omega, List.length_pos_iff.mpr fun nil => ?_, empty⟩
        exact notEmpty ⟨by omega, by omega, empty, nil⟩
      · exact Or.inl (by omega)
    · exact Or.inl (by omega)
  refine lack ⟨start.trans limit, ?_, ?_⟩
  · omega
  · rcases last with inside | ⟨one, _, empty⟩
    · rw [none _ (by rw [writtenRows]; omega)]
      exact Nat.zero_le _
    · rw [writtenRows, empty, one, pageCount_inline (by rw [blknumSize]; omega)]
      exact Nat.zero_le _

/-- Such a write records what it has found, and fails. -/
theorem fstreamWrite_idle (buf : Bytes) (lack : ¬ Enough s k offset len fl)
    (kept : grownSize s k offset len = fsize (s.stores.pool.cell k)) :
    Idle L s (fstreamWrite s k buf len offset).2 k fl := by
  have limit := wf.rows_le live file
  have covered := wf.covered k live file
  have range := wf.owned.node_range live
  have cases := lack_cases wf live file small lack kept
  obtain ⟨f, listed, bytes, _⟩ := wf.owned.fnodeListing_spec live file
  rw [endOf_file file] at bytes
  have fits := wf.owned.fits k live
  rw [endOf_file file] at fits
  have number : ∀ i < size (s.stores.pool.cell k), fNo f i = blockNo s.stores.pool k i :=
    fun i before => block_congr bytes fits before
  have start : ({ s with f } : State).stores = s.stores := stores_congr rfl
  have value : uint32 (if newFsize (s.stores.pool.cell k) (offset + len) > FCONTENT_MAX_SIZE then (FCONTENT_MAX_SIZE : Int)
      else newFsize (s.stores.pool.cell k) (offset + len)) = fsize (s.stores.pool.cell k) := by
    rw [newFsize_eq (by omega), ← grownSize, kept]
  obtain ⟨blkbuf, _, run⟩ := fstreamWrite_eq buf wf.owned.toMarked live file small listed limit
  generalize newFsize (s.stores.pool.cell k) (offset + len) = v at run value
  obtain ⟨e, t, stores, same, loop, stop⟩ := writeBlocks_idle (s := { s with f }) (by rw [start]; exact wf.list) cases blkbuf
  rw [start] at stores
  rw [run, loop]
  have pops : ∀ u : State, (errnoPop u).2.stores = u.stores := stores_errnoPop
  have number' : ∀ i < size (s.stores.pool.cell k), fNo t.f i = blockNo s.stores.pool k i := by
    rw [same]
    exact number
  rcases stop with rfl | ⟨past, full⟩
  · have idle := record_idle wf live file stores number' value
    dsimp only
    rw [if_neg (lt_irrefl _)]
    exact idle.congr (pops _)
  · have idle := record_idle (t := errnoPush t (-EFBIG)) wf live file ((stores_errnoPush _ _).trans stores) number' value
    have more : ¬ (size (s.stores.pool.cell k) : Int) > e := by omega
    dsimp only
    rw [if_neg more, fnodeListingSet_cut past, errnoPush_inodeSetAttrUpc _ (by omega), ← full]
    exact idle.congr (pops _)

/-- A write that lacks something fails, and keeps everything only where it
changes nothing and nothing is free. -/
theorem fstreamWrite_keeps_iff (buf : Bytes) (clear : s.errno = 0) :
    ((fstreamWrite s k buf len offset).1 < 0 →
      NothingLost L s (afterWrite (fstreamWrite s k buf len offset)).2 k fl) ↔
      Enough s k offset len fl ∨
        fl = [] ∧ s.stores.pool.freeCount 1024 = 0 ∧ grownSize s k offset len = fsize (s.stores.pool.cell k) := by
  by_cases enough : Enough s k offset len fl
  · obtain ⟨result, _⟩ := success_of_enough wf live file small buf enough clear
    refine iff_of_true (fun failed => ?_) (Or.inl enough)
    omega
  · have failed : (fstreamWrite s k buf len offset).1 < 0 :=
      not_le.mp fun success => enough (enough_of_success wf live file small success)
    have grown := fstreamWrite_fsize wf live file small buf
    have idle := fstreamWrite_idle wf live file small buf enough
    have cell := afterWrite_cell (fstreamWrite s k buf len offset)
    have keeps := fun idle => afterWrite_keeps_iff (t := (fstreamWrite s k buf len offset).2) wf live file idle failed
    constructor
    · intro kept
      have lost := kept failed
      have same : grownSize s k offset len = fsize (s.stores.pool.cell k) := by
        rw [← grown, ← cell, lost.size]
      obtain ⟨empty, spare⟩ := (keeps (idle same)).mp lost
      exact Or.inr ⟨empty, spare, same⟩
    · rintro (more | ⟨empty, spare, same⟩) _
      · exact absurd more enough
      · exact (keeps (idle same)).mpr ⟨empty, spare⟩

end

/-- `sfs_write` with numbers out of range. -/
theorem sfsWrite_outOfRange {path : CPath} {size offset : Nat} (found : (pathToInum s path).1.inum = k) (buf : Bytes)
    (outside : ¬ Representable size offset) : (sfsWrite s path buf size offset).2.ub = true := by
  rw [sfsWrite_eq found rfl, afterWrite_ub]
  refine fstreamWrite_outOfRange ?_
  by_contra inside
  simp only [Bool.not_eq_true, Bool.or_eq_false_iff, decide_eq_false_iff_not, not_not, not_lt] at inside
  obtain ⟨⟨⟨_, sum⟩, offset'⟩, size'⟩ := inside
  have bound := int32_lt (int32 offset + int32 size)
  rw [sum] at bound
  exact outside ⟨size', offset', bound⟩

section

variable {path : CPath} {size offset o : Nat} (wf : Consistent L s fl) (live : k ∈ L) (file : isdir (s.stores.pool.cell k) = 0)
  (found : (pathToInum s path).1.inum = k) (clear : s.errno = 0)

include wf live file found clear

/-- `sfs_write` with numbers in range. -/
theorem sfsWrite_within (buf : Bytes) (length : int32 size = len) (start : int32 offset = o) (small : o + len < 2147483648) :
    (sfsWrite s path buf size offset).2.ub = (pathToInum s path).2.ub ∧
    (((sfsWrite s path buf size offset).1 < 0 → NothingLost L s (sfsWrite s path buf size offset).2 k fl) ↔
      Enough s k o len fl ∨
        fl = [] ∧ s.stores.pool.freeCount 1024 = 0 ∧ grownSize s k o len = fsize (s.stores.pool.cell k)) := by
  have glance := pathToInum_glance s path
  generalize after : (pathToInum s path).2 = t at glance
  have wf₁ := glance.consistent wf
  have same := glance.stores_eq
  have file₁ : isdir (t.stores.pool.cell k) = 0 := by rw [same]; exact file
  have keeps := fstreamWrite_keeps_iff wf₁ live file₁ small buf (glance.errno_eq.trans clear)
  have enough : Enough t k o len fl ↔ Enough s k o len fl :=
    ⟨fun enough => enough.start_from same, fun enough => enough.start_from same.symm⟩
  rw [enough, grownSize, same, ← grownSize] at keeps
  rw [sfsWrite_eq found after, afterWrite_ub, afterWrite_fst, length, start]
  refine ⟨fstreamWrite_ub wf₁ live file₁ buf small, ?_⟩
  rw [← keeps]
  exact ⟨fun kept failed => (kept failed).start_from same.symm, fun kept failed => (kept failed).start_from same⟩

end

/-- Nothing is lost by a write that has what it needs or leaves nothing to
lose; by every other one something is. -/
theorem sfsWrite_failsClean_iff {path : CPath} {size offset : Nat} (buf : Bytes) (wf : Consistent L s fl) (live : k ∈ L)
    (file : isdir (s.stores.pool.cell k) = 0) (found : (pathToInum s path).1.inum = k) (clear : s.errno = 0) :
    FailsClean L s (sfsWrite s path buf size offset) k fl ↔ SafeWrite s path k size offset fl := by
  by_cases range : Representable size offset
  · obtain ⟨size', offset', small⟩ := id range
    obtain ⟨n, length⟩ := Int.eq_ofNat_of_zero_le size'
    obtain ⟨o, start⟩ := Int.eq_ofNat_of_zero_le offset'
    rw [length, start] at small
    obtain ⟨ub, keeps⟩ := sfsWrite_within wf live file found clear buf length start (by omega)
    rw [FailsClean, ub, keeps]
    constructor
    · rintro ⟨lookup, supply⟩
      refine ⟨lookup, range, ?_⟩
      rwa [length, start]
    · rintro ⟨lookup, _, supply⟩
      rw [length, start] at supply
      exact ⟨lookup, supply⟩
  · refine iff_of_false (fun ⟨defined, _⟩ => ?_) fun safe => range safe.range
    rw [sfsWrite_outOfRange found buf range] at defined
    exact Bool.false_ne_true defined.symm

/-- Ten bytes written to the empty file `/a`. -/
theorem sfsWrite_failsClean_first : ∃ (s : State) (k : Nat), Glance firstState s ∧
    FailsClean {k, 2} s (sfsWrite s (render [[97]]) Bytes.zero 10 0) k (List.range' 1025 31743) := by
  obtain ⟨s, k, glance, first, lookup⟩ := firstState_clear
  refine ⟨s, k, glance, (sfsWrite_failsClean_iff Bytes.zero first.wellFormed.toConsistent FirstFile.live first.file first.found
    first.good.errno).mpr ⟨lookup, ?_, Or.inl (first.enough (by decide))⟩⟩
  rw [Representable]
  decide

/-- One byte written to the empty file `/a` far past the limit: the write fails, and the file has grown. -/
theorem write_past_limit_loses : ∃ (s : State) (k : Nat), Glance firstState s ∧
    WellFormed {k, 2} s (List.range' 1025 31743) ∧ s.errno = 0 ∧ isdir (s.stores.pool.cell k) = 0 ∧
    (pathToInum s (render [[97]])).1.inum = (k : Nat) ∧
    (sfsWrite s (render [[97]]) Bytes.zero 1 4272640).2.ub = false ∧
    (sfsWrite s (render [[97]]) Bytes.zero 1 4272640).1 < 0 ∧
    ¬ NothingLost {k, 2} s (sfsWrite s (render [[97]]) Bytes.zero 1 4272640).2 k (List.range' 1025 31743) := by
  obtain ⟨s, k, glance, first, lookup⟩ := firstState_clear
  obtain ⟨ub, keeps⟩ := sfsWrite_within first.wellFormed.toConsistent FirstFile.live first.file first.found first.good.errno
    Bytes.zero (int32_nat (n := 1) (by decide)) (int32_nat (n := 4272640) (by decide)) (by decide)
  have lost : ¬ ((sfsWrite s (render [[97]]) Bytes.zero 1 4272640).1 < 0 →
      NothingLost {k, 2} s (sfsWrite s (render [[97]]) Bytes.zero 1 4272640).2 k (List.range' 1025 31743)) := by
    rw [keeps]
    rintro (enough | ⟨nil, _⟩)
    · exact absurd enough.start (by decide)
    · exact absurd (congrArg List.length nil) (by rw [List.length_range']; decide)
  exact ⟨s, k, glance, first.wellFormed, first.good.errno, first.file, first.found, ub.trans lookup,
    Classical.not_imp.mp lost⟩

end Sfs
