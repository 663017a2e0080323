import Sfs.Extend

namespace Sfs

variable {L : Set Nat} {s s' t : State} {fl : List Nat} {k i n o ptr bSize bEnd size offset entry ptrEnd cacheEnd : Nat}
  {x buf blkbuf inode lv1 : Bytes} {v : Int} {path : CPath}

/-! A listing that is not cut releases no page, whether or not there are
inodes for the new ones. -/

theorem setPages_grow (grow : cacheEnd ≤ ptrEnd) (s : State) (inode : Bytes) (ptr i n : Nat) :
    (setPages buf ptrEnd cacheEnd s inode ptr i n).1.ub = s.ub ∧
      ∀ o < 112, (setPages buf ptrEnd cacheEnd s inode ptr i n).2 o = inode o := by
  induction n generalizing s inode ptr i with
  | zero => exact ⟨rfl, fun _ _ => rfl⟩
  | succ n ih =>
    rw [setPages]
    split
    · rw [if_neg (by omega)]
      exact ih _ _ _ _
    · split
      · obtain ⟨ub, bytes⟩ := ih (inodeDump (freeInodePop s).2 (pnum (setPnum inode i (freeInodePop s).1) i)
          (pageOf buf ptr)) (setPnum inode i (freeInodePop s).1) (ptr + 128) (i + 1)
        refine ⟨ub.trans ((inodeDump_ub _ _ _).trans (freeInodePop_ub s)), fun o within => ?_⟩
        rw [bytes o within]
        exact Bytes.put16_apply_of_ne (by omega)
      · obtain ⟨ub, bytes⟩ := ih (inodeDump s (pnum inode i) (pageOf buf ptr)) inode (ptr + 128) (i + 1)
        exact ⟨ub.trans (inodeDump_ub _ _ _), bytes⟩

theorem newLeaves_ub (s : State) (lv1 : Bytes) (ptr i n : Nat) :
    (newLeaves buf ptrEnd s lv1 ptr i n).1.ub = s.ub := by
  induction n generalizing s lv1 ptr i with
  | zero => rfl
  | succ n ih =>
    rw [newLeaves]
    split
    · exact (ih _ _ _ _).trans ((inodeDump_ub _ _ _).trans (freeInodePop_ub s))
    · exact ih _ _ _ _

theorem setLeaves_ub (s : State) (lv1 : Bytes) (ptr i n : Nat) :
    (setLeaves buf ptrEnd cacheEnd s lv1 ptr i n).1.ub = s.ub := by
  induction n generalizing s lv1 ptr i with
  | zero => rfl
  | succ n ih =>
    rw [setLeaves]
    split
    · split
      · exact (ih _ _ _ _).trans ((inodeDump_ub _ _ _).trans (freeInodePop_ub s))
      · exact (ih _ _ _ _).trans (inodeDump_ub _ _ _)
    · exact ih _ _ _ _

theorem setIndex_grow (grow : cacheEnd ≤ ptrEnd) (s : State) (inode : Bytes) (ptr i n : Nat) :
    (setIndex buf ptrEnd cacheEnd s inode ptr i n).1.ub = s.ub ∧
      ∀ o < 112, (setIndex buf ptrEnd cacheEnd s inode ptr i n).2 o = inode o := by
  induction n generalizing s inode ptr i with
  | zero => exact ⟨rfl, fun _ _ => rfl⟩
  | succ n ih =>
    rw [setIndex]
    split
    · rw [if_neg (by omega)]
      exact ih _ _ _ _
    · split
      · have leaves : (newLeaves buf ptrEnd (freeInodePop s).2 Bytes.zero ptr 0 64).1.ub = _ := newLeaves_ub _ _ _ _ _
        dsimp only
        generalize newLeaves buf ptrEnd (freeInodePop s).2 Bytes.zero ptr 0 64 = made at *
        obtain ⟨ub, bytes⟩ := ih (inodeDump made.1 (exPnum (setExPnum inode i (freeInodePop s).1) i) made.2)
          (setExPnum inode i (freeInodePop s).1) (ptr + 8192) (i + 1)
        refine ⟨by rw [ub, inodeDump_ub, leaves, freeInodePop_ub], fun o within => ?_⟩
        rw [bytes o within]
        exact Bytes.put16_apply_of_ne (by omega)
      · have leaves : (setLeaves buf ptrEnd cacheEnd s (inodeLoad s (exPnum inode i)) ptr 0 64).1.ub = _ :=
          setLeaves_ub _ _ _ _ _
        dsimp only
        generalize setLeaves buf ptrEnd cacheEnd s (inodeLoad s (exPnum inode i)) ptr 0 64 = set at *
        obtain ⟨ub, bytes⟩ := ih (inodeDump set.1 (exPnum inode i) set.2) inode (ptr + 8192) (i + 1)
        exact ⟨by rw [ub, inodeDump_ub, leaves], bytes⟩

theorem listingSet_grow (grow : Sfs.size (inodeLoad s k) ≤ n) (small : n < 65536)
    (run : listingSet entry buf s k n = s') : s'.ub = s.ub ∧ (1 ≤ k → k < 4096 → ino (inodeLoad s k) = k →
      Sfs.size (inodeLoad s' k) = n ∧ fsize (inodeLoad s' k) = fsize (inodeLoad s k)) := by
  have natural : ((n : Int)).toNat = n := Int.toNat_natCast n
  have short : ushort n = n := by simp only [ushort]; omega
  have ends : entry * Sfs.size (inodeLoad s k) ≤ entry * n := Nat.mul_le_mul_left entry grow
  simp only [listingSet, natural, short] at run
  generalize inodeLoad s k = x at *
  have pages : (setPages buf (entry * n) (entry * Sfs.size x) s ((setSize x n).copy 16 buf 0 96) 96 0 4).1.ub = _ ∧ _ :=
    setPages_grow ends _ _ _ _ _
  obtain ⟨ub₁, bytes₁⟩ := pages
  generalize setPages buf (entry * n) (entry * Sfs.size x) s ((setSize x n).copy 16 buf 0 96) 96 0 4 = first at *
  have index : (setIndex buf (entry * n) (entry * Sfs.size x) first.1 first.2 608 0 4).1.ub = _ ∧ _ :=
    setIndex_grow ends _ _ _ _ _
  obtain ⟨ub₂, bytes₂⟩ := index
  generalize setIndex buf (entry * n) (entry * Sfs.size x) first.1 first.2 608 0 4 = all at *
  have header : ∀ o < 16, all.2 o = setSize x n o := fun o within => by
    rw [bytes₂ o (by omega), bytes₁ o (by omega), Bytes.copy_apply_of_not_mem (by omega)]
  refine ⟨by rw [← run, inodeDump_ub, ub₂, ub₁], fun lower upper own => ?_⟩
  have number : ino all.2 = k := by
    rw [← own]
    refine Bytes.get16_congr ?_ ?_ <;> rw [header _ (by omega)] <;> exact Bytes.put16_apply_of_ne (by omega)
  have value : Sfs.size (all.2.take 128) = n := by
    have same : Sfs.size (all.2.take 128) = Sfs.size (setSize x n) := by
      refine Bytes.get16_congr ?_ ?_ <;> rw [Bytes.take_apply_of_lt (by omega), header _ (by omega)]
    rw [same, Sfs.size, setSize, Bytes.get16_put16_self, Nat.mod_eq_of_lt small]
  have bytes : fsize (all.2.take 128) = fsize x := Bytes.get32_congr fun o ho => by
    rw [Bytes.take_apply_of_lt (by omega), header _ (by omega)]
    exact Bytes.put16_apply_of_ne (by omega)
  rw [number] at run
  have stores : (inodeDump all.1 k all.2).stores = _ := stores_inodeDump lower upper
  rw [run] at stores
  rw [inodeLoad_cell lower upper, stores, Stores.setPool_pool, Pool.write_cell_self]
  exact ⟨value, bytes⟩

theorem inodeSetAttrUpc_ub : (inodeSetAttrUpc s k v).ub = s.ub := by rw [inodeSetAttrUpc, inodeDump_ub]

/-- The write loop only touches blocks of the file and free blocks. It comes to
the end of its range exactly when there are enough of them. -/
theorem writeBlocks_calm (bEnd n : Nat) (blkbuf : Bytes) (list : FreeList t.stores fl) (held : Held t.f bSize fl)
    (i ptr : Nat) (count : i + n = bEnd) :
    (writeBlocks t bSize bEnd i blkbuf ptr n).2.ub = t.ub ∧
      (writeBlocks t bSize bEnd i blkbuf ptr n).2.stores.pool = t.stores.pool ∧
      ∃ e : Nat, (writeBlocks t bSize bEnd i blkbuf ptr n).1 = e ∧
        (min bEnd 8344 ≤ max i bSize + fl.length → e = max i (min bEnd 8344) ∧
          (writeBlocks t bSize bEnd i blkbuf ptr n).2.errno = t.errno) ∧
        (max i bSize + fl.length < min bEnd 8344 → (writeBlocks t bSize bEnd i blkbuf ptr n).2.errno = -ENOSPC) := by
  induction n generalizing t i ptr fl with
  | zero => exact ⟨rfl, rfl, i, rfl, fun _ => ⟨by omega, rfl⟩, fun short => by omega⟩
  | succ n ih =>
    have next : (i : Int) + 1 = ((i + 1 : Nat) : Int) := by omega
    rw [writeBlocks]
    split
    next cond =>
      have stop : i < 8344 := by
        simp only [FENTRY_MAX_SIZE] at cond
        omega
      by_cases inside : i < bSize
      · obtain ⟨lower, upper⟩ := held.area i inside
        have block : fGet t i = fNo t.f i := fGet_nat (upper.trans (by decide))
        have inside' : (i : Int) < bSize := by omega
        simp only [inside', if_true, fBad_nat stop, fault_false, fGet_note, block, next]
        have wrote := blockWrite_spec (t := t) (x := fun j => blkbuf (ptr + j)) lower upper
        generalize blockWrite (t.note (.streamWrite (fNo t.f i))) (fNo t.f i) (fun j => blkbuf (ptr + j)) = t₁
          at wrote ⊢
        have list₁ : FreeList t₁.stores fl :=
          list.congr (by rw [wrote.stores, Stores.setData_sup]) fun b member => by
            rw [wrote.stores, Stores.setData_data, Function.update_of_ne]
            rintro rfl
            exact held.off i inside member
        obtain ⟨ub, pool, e, stop, enough, short⟩ := ih list₁ (by rwa [wrote.f]) (i + 1) (ptr + BLOCK_SIZE) (by omega)
        refine ⟨ub.trans wrote.ub, by rw [pool, wrote.stores, Stores.setData_pool], e, stop, fun fits => ?_,
          fun exceeds => short (by omega)⟩
        obtain ⟨end', errno⟩ := enough (by omega)
        exact ⟨by omega, errno.trans wrote.errno⟩
      · have outside : ¬ (i : Int) < bSize := by omega
        simp only [outside, if_false, next]
        cases fl with
        | nil =>
          obtain ⟨t₁, run, stores, _, _, _, _, errno, ub⟩ := freeBlockAllocate_nil (some fun j => blkbuf (ptr + j)) list
          simp only [run, show (-1 : Int) < 0 by decide, if_true]
          refine ⟨ub, by rw [stores], i, rfl, fun fits => ?_, fun _ => errno⟩
          rw [List.length_nil] at fits
          omega
        | cons b fl =>
          obtain ⟨block, lower, got⟩ := freeBlockAllocate_spec (some fun j => blkbuf (ptr + j)) list stop
          have positive : ¬ (freeBlockAllocate t (some fun j => blkbuf (ptr + j))).1 < 0 := by
            rw [block]
            omega
          simp only [positive, if_false]
          generalize fSet (freeBlockAllocate t (some fun j => blkbuf (ptr + j))).2 i
            (freeBlockAllocate t (some fun j => blkbuf (ptr + j))).1 = t₁ at got ⊢
          have same : ∀ j < bSize, fNo t₁.f j = fNo t.f j := fun j before => got.kept j (by omega)
          have held₁ : Held t₁.f bSize fl := by
            refine ⟨fun j before => ?_, fun j before => ?_, fun j before j' before' => ?_⟩
            · rw [same j before]
              exact held.area j before
            · rw [same j before]
              exact fun member => held.off j before (List.mem_cons_of_mem _ member)
            · rw [same j before, same j' before']
              exact held.inj j before j' before'
          obtain ⟨ub, pool, e, stop, enough, short⟩ := ih got.list held₁ (i + 1) (ptr + BLOCK_SIZE) (by omega)
          rw [List.length_cons]
          refine ⟨ub.trans got.ub, pool.trans got.pool, e, stop, fun fits => ?_, fun exceeds => short (by omega)⟩
          obtain ⟨end', errno⟩ := enough (by omega)
          exact ⟨by omega, errno.trans got.errno⟩
    next past =>
      simp only [FENTRY_MAX_SIZE] at past
      exact ⟨rfl, rfl, i, rfl, fun _ => ⟨by omega, rfl⟩, fun short => by omega⟩

/-- A file is given more blocks, or as many as it can have. -/
theorem fnodeListingSet_ub (grow : Sfs.size (inodeLoad s k) ≤ n) (limit : Sfs.size (inodeLoad s k) ≤ 8344) :
    (fnodeListingSet s k n).ub = s.ub := by
  rw [fnodeListingSet]
  split
  · have same : inodeLoad (errnoPush s (-EFBIG)) k = inodeLoad s k := rfl
    rw [← same] at limit
    exact (listingSet_grow limit (by decide) rfl).1
  next within =>
    simp only [FENTRY_MAX_SIZE] at within
    exact (listingSet_grow grow (by omega) rfl).1

/-- Its size in bytes stays, whether or not there are inodes for the new pages. -/
theorem fnodeListingSet_fsize (grow : Sfs.size (inodeLoad s k) ≤ n) (limit : Sfs.size (inodeLoad s k) ≤ 8344)
    (lower : 1 ≤ k) (upper : k < 4096) (own : ino (inodeLoad s k) = k) :
    fsize (inodeLoad (fnodeListingSet s k n) k) = fsize (inodeLoad s k) := by
  rw [fnodeListingSet]
  split
  · have same : inodeLoad (errnoPush s (-EFBIG)) k = inodeLoad s k := rfl
    rw [← same] at limit own ⊢
    exact ((listingSet_grow limit (by decide) rfl).2 lower upper own).2
  next within =>
    simp only [FENTRY_MAX_SIZE] at within
    exact ((listingSet_grow grow (by omega) rfl).2 lower upper own).2

theorem Owned.rows_le (owned : Owned L s.stores.pool) (live : k ∈ L) (file : isdir (s.stores.pool.cell k) = 0) :
    Sfs.size (s.stores.pool.cell k) ≤ 8344 := by
  have fits := owned.fits k live
  rw [endOf_file file, blknumSize] at fits
  omega

section

variable (owned : Owned L s.stores.pool) (list : FreeList s.stores fl) (blocks : FileBlocks L s.stores.pool fl)
  (live : k ∈ L) (file : isdir (s.stores.pool.cell k) = 0)

include owned list blocks live file

/-- No index leaves its array in a write that does not overflow. -/
theorem fstreamWrite_defined (buf : Bytes) (small : offset + size < 2147483648) :
    (fstreamWrite s k buf size offset).2.ub = s.ub := by
  have limit := owned.rows_le live file
  have range := owned.node_range live
  obtain ⟨f, listed, bytes, _⟩ := owned.fnodeListing_spec live file
  rw [endOf_file file] at bytes
  have fits := owned.fits k live
  rw [endOf_file file] at fits
  have start : ({ s with f } : State).stores = s.stores := stores_congr rfl
  have held : Held f (Sfs.size (s.stores.pool.cell k)) fl :=
    blocks.held live file fun i before => block_congr bytes fits before
  obtain ⟨blkbuf, _, run⟩ := fstreamWrite_eq buf owned.toMarked live file small listed limit
  obtain ⟨ub, pool, e, stop, _⟩ := writeBlocks_calm (t := { s with f }) (lastBlock offset size)
    (lastBlock offset size - offset / 512) blkbuf (by rw [start]; exact list) held (offset / 512) 0
    (Nat.add_sub_cancel' (start_le_lastBlock offset size))
  rw [start] at pool
  have ub' : ({ s with f } : State).ub = s.ub := setF_ub s f
  generalize writeBlocks { s with f } (Sfs.size (s.stores.pool.cell k)) (lastBlock offset size) (offset / 512 : Nat) blkbuf 0
    (lastBlock offset size - offset / 512) = written at *
  have rows : (if (Sfs.size (s.stores.pool.cell k) : Int) > written.1 then (Sfs.size (s.stores.pool.cell k) : Int)
      else written.1) = (max (Sfs.size (s.stores.pool.cell k)) e : Nat) := by
    rw [stop]
    split <;> omega
  simp only [rows] at run
  have marked : Marked L written.2.stores.pool := by rw [pool]; exact owned.toMarked
  obtain ⟨x, quiet, stores, header, _⟩ := inodeSetAttrUpc_spec marked live (by rw [pool]; exact file)
    (newFsize (s.stores.pool.cell k) (offset + size))
  have sizes : Sfs.size (inodeLoad (inodeSetAttrUpc written.2 k (newFsize (s.stores.pool.cell k) (offset + size))) k) =
      Sfs.size (s.stores.pool.cell k) := by
    rw [inodeLoad_cell (by omega) (by omega), stores, Stores.setPool_pool, Pool.write_cell_self, ← pool]
    exact Bytes.get16_congr (header _ (by omega)) (header _ (by omega))
  have quietUb := quiet.ub_eq
  generalize inodeSetAttrUpc written.2 k (newFsize (s.stores.pool.cell k) (offset + size)) = t at *
  have set := fnodeListingSet_ub (s := t) (k := k) (n := max (Sfs.size (s.stores.pool.cell k)) e)
    (by rw [sizes]; exact Nat.le_max_left _ _) (by rw [sizes]; exact limit)
  rw [run]
  generalize fnodeListingSet t k (max (Sfs.size (s.stores.pool.cell k)) e : Nat) = t' at *
  exact set.trans (quietUb.trans (ub.trans ub'))

/-- Nor in a truncation to a size that the array has room for. -/
theorem truncateTo_defined (limit : n ≤ 8344) : (truncateTo s k n v).ub = s.ub := by
  by_cases shrinks : n ≤ Sfs.size (s.stores.pool.cell k)
  · have nodup := blocks.nodup k live file
    obtain ⟨f, trunc, _⟩ := truncateTo_spec (v := v) owned live file list
      (nodup.sublist ((List.drop_sublist _ _).append_right _))
      (fun b member => blocks.area k live file b (List.mem_of_mem_drop member)) limit rfl
      (.of_le (by rw [endOf_file file]; exact Nat.mul_le_mul_left _ shrinks))
    exact trunc.ub
  · have range := owned.node_range live
    have rows := owned.rows_le live file
    obtain ⟨f, listed, _⟩ := owned.fnodeListing_spec live file
    have start : ({ s with f } : State).stores = s.stores := stores_congr rfl
    have count : ((n : Int) - (Sfs.size (s.stores.pool.cell k) : Nat)).toNat = n - Sfs.size (s.stores.pool.cell k) := by omega
    have grown := growBlocks_spec (s := { s with f }) (i := Sfs.size (s.stores.pool.cell k))
      (n := n - Sfs.size (s.stores.pool.cell k)) (show FreeList _ fl by rw [start]; exact list) (by omega)
    have ub₀ : ({ s with f } : State).ub = s.ub := setF_ub s f
    simp only [truncateTo, listed, count]
    generalize growBlocks { s with f } (Sfs.size (s.stores.pool.cell k)) (n - Sfs.size (s.stores.pool.cell k)) = t at *
    have pool : t.stores.pool = s.stores.pool := by rw [grown.pool, start]
    obtain ⟨g, listed', _⟩ := (show Owned L t.stores.pool by rw [pool]; exact owned).fnodeListing_spec live
      (by rw [pool]; exact file)
    have none : ((Sfs.size (t.stores.pool.cell k) : Int) - (n : Nat)).toNat = 0 := by
      rw [pool]
      omega
    have short : ushort k = k := ushort_nat (by omega)
    have loaded : inodeLoad { t with f := g } k = s.stores.pool.cell k := by
      have same : ({ t with f := g } : State).stores = t.stores := stores_congr rfl
      rw [inodeLoad_cell (by omega) (by omega), same, pool]
    have ub₁ : ({ t with f := g } : State).ub = t.ub := setF_ub t g
    rw [inodeSetAttrUpc_ub, fstreamFree]
    simp only [short, listed', none, freeBlocks]
    generalize { t with f := g } = t₁ at *
    have listed : (listingSet blknumSize t₁.f t₁ k n).ub = t₁.ub ∧ _ :=
      listingSet_grow (by rw [loaded]; omega) (by omega) rfl
    obtain ⟨ub₂, sizes⟩ := listed
    have first := fnodeListingSet_eq (s := t₁) (k := k) limit
    rw [first]
    obtain ⟨sizes, _⟩ := sizes (by omega) (by omega) (by rw [loaded]; exact owned.own k live)
    generalize listingSet blknumSize t₁.f t₁ k n = t₂ at *
    rw [fnodeListingSet_ub (by omega) (by omega), ub₂, ub₁, grown.ub, ub₀]

end

section

variable (wf : Consistent L s fl) (live : k ∈ L) (file : isdir (s.stores.pool.cell k) = 0)

include wf live file

theorem Consistent.rows_le : Sfs.size (s.stores.pool.cell k) ≤ 8344 := wf.owned.rows_le live file

theorem fstreamWrite_ub (buf : Bytes) (small : offset + size < 2147483648) :
    (fstreamWrite s k buf size offset).2.ub = s.ub :=
  fstreamWrite_defined wf.owned wf.list wf.blocks live file buf small

theorem truncateTo_ub (limit : n ≤ 8344) : (truncateTo s k n v).ub = s.ub :=
  truncateTo_defined wf.owned wf.list wf.blocks live file limit

end

/-- `b_start`. -/
def startBlock (offset : Int) : Int := offset.tdiv BLOCK_SIZE

/-- `b_end` of `fstream_read`. -/
def readEnd (size offset : Int) : Int := (int32 (offset + size)).tdiv BLOCK_SIZE + 1

/-- `b_end` of `fstream_write`. -/
def writeEnd (size offset : Int) : Int := (int32 (offset + size - 1)).tdiv BLOCK_SIZE + 1

/-- A transfer has kept its values: the conversions to `int` and the sum, the
number of blocks, the bytes copied from or to the buffer of these blocks, and
the indices of the arrays. -/
structure InRange (size offset : Nat) (bEnd len : Int) (s' : State) : Prop where
  sizeKept : int32 size = size
  offsetKept : int32 offset = offset
  sum : int32 (int32 offset + int32 size) = (offset : Int) + size
  span : startBlock (int32 offset) ≤ bEnd
  copied : 0 ≤ (int32 offset).tmod BLOCK_SIZE ∧
    (int32 offset).tmod BLOCK_SIZE + len ≤ BLOCK_SIZE * (bEnd - startBlock (int32 offset))
  defined : s'.ub = false

/-- The only request turned down before any access is one whose path is not found. -/
def ReadInRange (s : State) (path : CPath) (size offset : Nat) : Prop :=
  (pathToInum s path).1.inum < 0 ∨ InRange size offset (readEnd (int32 size) (int32 offset))
    (sfsRead s path size offset).1.size (sfsRead s path size offset).2

def WriteInRange (s : State) (path : CPath) (buf : Bytes) (size offset : Nat) : Prop :=
  (pathToInum s path).1.inum < 0 ∨ InRange size offset (writeEnd (int32 size) (int32 offset))
    (int32 size) (sfsWrite s path buf size offset).2

/-- The locals `fsize` and `new_b_size` of `sfs_truncate` keep their values, and the indices are in range. -/
def TruncateInRange (s : State) (path : CPath) (offset : Nat) : Prop :=
  (pathToInum s path).1.inum < 0 ∨ int32 offset = offset ∧
    int32 (offset / BLOCK_SIZE + 1 : Nat) = (offset / BLOCK_SIZE + 1 : Nat) ∧ (sfsTruncate s path offset).2.ub = false

theorem int32_lt (v : Int) : int32 v < 2147483648 := by
  have bound := Int.bmod_lt (x := v) (m := 4294967296) (by decide)
  simpa [int32] using bound

theorem int32_nat (small : n < 2147483648) : int32 n = n := int32_of_mem (by omega) (by omega)

theorem InRange.sum_lt {bEnd len : Int} (inRange : InRange size offset bEnd len s') : offset + size < 2147483648 := by
  have bound := int32_lt (int32 offset + int32 size)
  rw [inRange.sum] at bound
  omega

theorem sfsRead_eq (found : (pathToInum s path).1.inum = k) (after : (pathToInum s path).2 = t) :
    sfsRead s path size offset = fstreamRead t k (int32 size) (int32 offset) := by
  have positive : ¬ (k : Int) < 0 := by omega
  simp only [sfsRead, found, after, positive, if_false]

theorem errnoPop_ub (s : State) : (errnoPop s).2.ub = s.ub := rfl

theorem afterWrite_ub (written : Int × State) : (afterWrite written).2.ub = written.2.ub := by
  rw [afterWrite]
  split
  · rw [errnoPop_ub, freeBlockPop_ub, errnoPop_ub, freeInodePop_ub]
  · rfl

section

variable (wf : Consistent L s fl) (live : k ∈ L) (file : isdir (s.stores.pool.cell k) = 0)
  (found : (pathToInum s path).1.inum = k) (lookup : (pathToInum s path).2.ub = false)

include wf live file found lookup

theorem readInRange_iff (small : size < 2147483648) :
    ReadInRange s path size offset ↔ offset + size < 2147483648 := by
  constructor
  · rintro (absent | inRange)
    · omega
    · exact inRange.sum_lt
  · intro within
    have glance := pathToInum_glance s path
    generalize after : (pathToInum s path).2 = t at glance lookup
    have wf₁ := glance.consistent wf
    have file₁ : isdir (t.stores.pool.cell k) = 0 := by rw [glance.stores_eq]; exact file
    have limit := wf₁.rows_le live file₁
    have covered := wf₁.covered k live file₁
    obtain ⟨f, listed, _⟩ := wf₁.owned.fnodeListing_spec live file₁
    have run := fstreamRead_eq wf₁.owned live file₁ within (by omega) listed limit
    refine Or.inr ⟨int32_nat small, int32_nat (by omega), ?_, ?_, ?_, ?_⟩
    · rw [int32_nat small, int32_nat (by omega), stop_eq within]
      omega
    · rw [startBlock, readEnd, int32_nat small, int32_nat (n := offset) (by omega), stop_eq within, tdiv_nat, tdiv_nat]
      omega
    · rw [sfsRead_eq found after, startBlock, readEnd, int32_nat small, int32_nat (n := offset) (by omega), run, stop_eq within,
        tdiv_nat, tdiv_nat, Int.tmod_eq_emod_of_nonneg (by omega), BLOCK_SIZE]
      dsimp only
      omega
    · rw [sfsRead_eq found after, int32_nat small, int32_nat (n := offset) (by omega), run, setF_ub, lookup]

theorem writeInRange_iff (buf : Bytes) (positive : 1 ≤ size) (small : size < 2147483648) :
    WriteInRange s path buf size offset ↔ offset + size < 2147483648 := by
  constructor
  · rintro (absent | inRange)
    · omega
    · exact inRange.sum_lt
  · intro within
    have glance := pathToInum_glance s path
    generalize after : (pathToInum s path).2 = t at glance lookup
    have wf₁ := glance.consistent wf
    have file₁ : isdir (t.stores.pool.cell k) = 0 := by rw [glance.stores_eq]; exact file
    refine Or.inr ⟨int32_nat small, int32_nat (by omega), ?_, ?_, ?_, ?_⟩
    · rw [int32_nat small, int32_nat (by omega), stop_eq within]
      omega
    · rw [startBlock, writeEnd, int32_nat small, int32_nat (n := offset) (by omega), lastBlock_eq within, tdiv_nat, lastBlock]
      omega
    · rw [startBlock, writeEnd, int32_nat small, int32_nat (n := offset) (by omega), lastBlock_eq within, tdiv_nat,
        Int.tmod_eq_emod_of_nonneg (by omega), lastBlock, BLOCK_SIZE]
      omega
    · rw [sfsWrite_eq found after, afterWrite_ub, int32_nat small, int32_nat (n := offset) (by omega),
        fstreamWrite_ub wf₁ live file₁ buf within, lookup]

theorem truncateInRange_iff : TruncateInRange s path offset ↔ offset < FCONTENT_MAX_SIZE := by
  have max : FCONTENT_MAX_SIZE = 4272128 := rfl
  have range := wf.owned.node_range live
  have glance := pathToInum_glance s path
  generalize after : (pathToInum s path).2 = t at glance lookup
  have wf₁ := glance.consistent wf
  have file₁ : isdir (t.stores.pool.cell k) = 0 := by rw [glance.stores_eq]; exact file
  constructor
  · rintro (absent | ⟨converted, _, defined⟩)
    · omega
    · have bound := int32_lt offset
      rw [converted] at bound
      rw [sfsTruncate_eq found after (by omega) (newBlocks_eq (by omega))] at defined
      by_contra beyond
      have left := truncateTo_overflow (v := int32 offset) wf₁.owned live file₁ (show 8344 < offset / 512 + 1 by omega)
      exact absurd (left.symm.trans defined) (by decide)
  · intro within
    have ub := truncateTo_ub (v := int32 offset) wf₁ live file₁ (show offset / 512 + 1 ≤ 8344 by omega)
    refine Or.inr ⟨int32_nat (by omega), int32_nat (by simp only [BLOCK_SIZE]; omega), ?_⟩
    rw [sfsTruncate_eq found after (by omega) (newBlocks_eq (by omega))]
    dsimp only
    rw [ub, lookup]

end

/-- The arithmetic of a read or a write stays in range exactly when the end of
the transfer is representable, that of a truncation exactly when the size is
below the limit. -/
theorem inRange_iff (wf : Consistent L s fl) (live : k ∈ L) (file : isdir (s.stores.pool.cell k) = 0)
    (found : (pathToInum s path).1.inum = k) (lookup : (pathToInum s path).2.ub = false) :
    (∀ size offset : Nat, 1 ≤ size → size < 2147483648 → offset < 9223372036854775808 →
      (ReadInRange s path size offset ↔ offset + size < 2147483648)) ∧
    (∀ (buf : Bytes) (size offset : Nat), 1 ≤ size → size < 2147483648 → offset < 9223372036854775808 →
      (WriteInRange s path buf size offset ↔ offset + size < 2147483648)) ∧
    ∀ offset : Nat, offset < 9223372036854775808 → (TruncateInRange s path offset ↔ offset < FCONTENT_MAX_SIZE) :=
  ⟨fun _ _ _ small _ => readInRange_iff wf live file found lookup small,
    fun buf _ _ positive small _ => writeInRange_iff wf live file found lookup buf positive small,
    fun _ _ => truncateInRange_iff wf live file found lookup⟩

/-- The file `/a` on a new file system, before any access out of range. -/
theorem firstState_clear : ∃ (s : State) (k : Nat), Glance firstState s ∧ FirstFile s k [97] ∧
    (pathToInum s (render [[97]])).2.ub = false := by
  obtain ⟨k, first⟩ := firstState_firstFile
  generalize firstState = t at *
  obtain ⟨s, glance, clean⟩ := Glance.cleared t
  have first := first.glance glance
  have good := first.good
  obtain ⟨s', run, _, ub⟩ := pathToInum_spec [] good.owned good.tree (by simp) first.plain rfl good.tree.top.dir
  rw [List.nil_append] at run ub
  refine ⟨s, k, glance, first, ?_⟩
  rw [run]
  exact (ub (by decide)).trans clean

/-- A file is given its largest number of blocks. -/
theorem truncateInRange_first : ∃ s, Glance firstState s ∧ TruncateInRange s (render [[97]]) 4272127 := by
  obtain ⟨s, k, glance, first, lookup⟩ := firstState_clear
  exact ⟨s, glance, ((inRange_iff first.wellFormed.toConsistent FirstFile.live first.file first.found lookup).2.2 4272127
    (by decide)).mpr (by decide)⟩

/-- Truncating to the limit itself stores behind the array, and the end of a
transfer at the largest offset is negative. -/
theorem out_of_range : ∃ (s : State) (k : Nat) (fl : List Nat), Glance firstState s ∧ Consistent {k, 2} s fl ∧
    isdir (s.stores.pool.cell k) = 0 ∧ (pathToInum s (render [[97]])).1.inum = (k : Nat) ∧
    ¬ TruncateInRange s (render [[97]]) 4272128 ∧ ¬ ReadInRange s (render [[97]]) 1 2147483647 ∧
    ¬ WriteInRange s (render [[97]]) Bytes.zero 1 2147483647 := by
  obtain ⟨s, k, glance, first, lookup⟩ := firstState_clear
  have wf := first.wellFormed.toConsistent
  have file := first.file
  have found := first.found
  refine ⟨s, k, _, glance, wf, file, found, fun inRange => ?_, fun inRange => ?_, fun inRange => ?_⟩
  · exact absurd ((truncateInRange_iff wf FirstFile.live file found lookup).mp inRange) (by decide)
  · exact absurd ((readInRange_iff wf FirstFile.live file found lookup (by decide)).mp inRange) (by decide)
  · exact absurd ((writeInRange_iff wf FirstFile.live file found lookup _ (by decide) (by decide)).mp inRange) (by decide)

end Sfs
