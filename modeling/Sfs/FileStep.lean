import Sfs.Fuse
import Sfs.Cut

namespace Sfs

variable {L : Set Nat} {s s' t : State} {p p' : Pool Bytes} {taken fl fl' : List Nat} {b k n i e rows : Nat}
  {buf f : Bytes} {offset len : Nat}

/-- File `k` has been given `n` blocks. Blocks have moved between it and the
free list, and nothing else is different. -/
structure FileStep (L : Set Nat) (s s' : State) (k n : Nat) (fl fl' : List Nat) : Prop where
  repaged : ∃ f, Repaged L s.stores.pool s'.stores.pool k n f
  moved : (blocksOf s'.stores.pool k ++ fl').Perm (blocksOf s.stores.pool k ++ fl)
  list : FreeList s'.stores fl'
  data : ∀ b, b ∉ blocksOf s.stores.pool k → b ∉ fl → s'.stores.data b = s.stores.data b
  count : freeBlockSize s.stores.sup = fl.length → freeBlockSize s'.stores.sup = fl'.length
  synced : Synced s → Synced s'
  traced : Traced s s'

theorem Stored.fileStep (stored : Stored L s s' k buf offset len e fl taken fl') :
    FileStep L s s' k (max e (size (s.stores.pool.cell k))) fl fl' where
  repaged := stored.repaged
  moved := by rw [stored.blocks, stored.split, List.append_assoc]
  list := stored.list
  data b outside notFree := by
    refine stored.frame b fun j lower upper same => ?_
    obtain ⟨f, repaged⟩ := stored.repaged
    have member : b ∈ blocksOf s'.stores.pool k := by
      rw [← same]
      refine List.mem_map.mpr ⟨j, List.mem_range.mpr ?_, rfl⟩
      rw [repaged.resized.size]
      omega
    rw [stored.blocks] at member
    rcases List.mem_append.mp member with old | new
    · exact outside old
    · exact notFree (stored.split ▸ List.mem_append_left _ new)
  count := stored.count
  synced := stored.synced
  traced := stored.traced

/-- A file that keeps its first blocks. -/
theorem Cut.fileStep (cut : Cut L s s' k n f fl (((blocksOf s.stores.pool k).drop n).reverse ++ fl))
    (file : isdir (s.stores.pool.cell k) = 0) (limit : n ≤ 8344)
    (number : ∀ i < n, fNo f i = blockNo s.stores.pool k i) (shrinks : n ≤ size (s.stores.pool.cell k)) :
    blocksOf s'.stores.pool k = (blocksOf s.stores.pool k).take n ∧
      FileStep L s s' k n fl (((blocksOf s.stores.pool k).drop n).reverse ++ fl) := by
  have kept : blocksOf s'.stores.pool k = (blocksOf s.stores.pool k).take n := by
    rw [cut.repaged.blocksOf_eq file (by simp only [blknumSize]; omega), blocksOf, ← List.map_take,
      List.take_range, Nat.min_eq_left shrinks]
    exact List.map_congr_left fun i hi => number i (List.mem_range.mp hi)
  refine ⟨kept, ⟨f, cut.repaged⟩, ?_, cut.list, fun b outside _ => ?_, cut.count, cut.synced, cut.traced⟩
  · rw [kept, ← List.append_assoc]
    refine List.Perm.append_right fl ?_
    have swap := (List.reverse_perm ((blocksOf s.stores.pool k).drop n)).append_left
      ((blocksOf s.stores.pool k).take n)
    rwa [List.take_append_drop] at swap
  · exact cut.data b fun member => outside (List.mem_of_mem_drop member)

/-- `n` entries from `i` on have been given blocks of the list `fl`, all zero,
and then the failure value of the allocator. -/
structure Grown (s s' : State) (i n : Nat) (fl : List Nat) : Prop where
  list : FreeList s'.stores (fl.drop n)
  pool : s'.stores.pool = s.stores.pool
  kept : ∀ j < i, fNo s'.f j = fNo s.f j
  new : ∀ j < n, fNo s'.f (i + j) = (fl[j]?).getD 4294967295
  zero : ∀ b ∈ fl.take n, s'.stores.data b = (fun _ => 0)
  data : ∀ b, b ∉ fl.take n → s'.stores.data b = s.stores.data b
  count : freeBlockSize s.stores.sup = fl.length → freeBlockSize s'.stores.sup = (fl.drop n).length
  synced : Synced s → Synced s'
  errno : n ≤ fl.length → s'.errno = s.errno
  traced : Traced s s'
  ub : s'.ub = s.ub

theorem blockImage_none : blockImage none = fun _ => 0 := by
  funext i
  simp only [blockImage, Option.getD_none, emptyBlk, Bytes.take, Bytes.zero]
  split <;> rfl

/-- One round of the loop of `sfs_truncate` with no block left. -/
theorem grow_short (list : FreeList s.stores []) (limit : i < 8344) :
    Grown s (fSet (freeBlockAllocate s none).2 i (freeBlockAllocate s none).1) i 1 [] := by
  obtain ⟨t, run, stores, f, synced, traced, _, _, ub⟩ := freeBlockAllocate_nil none list
  have failure : uint32 (-1) = 4294967295 := rfl
  rw [run, fSet, fBad_nat limit, if_neg Bool.false_ne_true, Int.toNat_natCast, failure]
  have same : ({ t with f := t.f.put32 (blknumSize * i) 4294967295 } : State).stores = s.stores :=
    (stores_congr rfl).trans stores
  refine ⟨by rwa [same], by rw [same], fun j before => ?_, fun j within => ?_, fun b member => absurd member List.not_mem_nil,
    fun b _ => by rw [same], fun counted => by rwa [same], fun _ => ?_, fun none => absurd none (by decide),
    traced.trans (.of_eq rfl), ub⟩
  · rw [← f]
    exact fNo_put32_of_ne (by omega)
  · obtain rfl : j = 0 := by omega
    exact fNo_put32_self (by omega)
  · rw [Synced, same, ← stores]
    exact synced

/-- One round of the loop that takes the first block of the list. -/
theorem grow_one (list : FreeList s.stores (b :: fl)) (limit : i < 8344) :
    Grown s (fSet (freeBlockAllocate s none).2 i (freeBlockAllocate s none).1) i 1 (b :: fl) := by
  obtain ⟨_, _, got⟩ := freeBlockAllocate_spec none list limit
  rw [blockImage_none] at got
  generalize fSet (freeBlockAllocate s none).2 i (freeBlockAllocate s none).1 = t at got
  refine ⟨got.list, got.pool, got.kept, fun j within => ?_, fun c member => ?_, fun c avoid => ?_,
    fun counted => got.count (by simpa using counted), fun _ => got.synced, fun _ => got.errno, got.traced, got.ub⟩
  · obtain rfl : j = 0 := by omega
    exact got.new
  · obtain rfl : c = b := by simpa using member
    rw [got.data, Function.update_self]
  · have ne : c ≠ b := by simpa using avoid
    rw [got.data, Function.update_of_ne ne]

namespace Grown

theorem refl (list : FreeList s.stores fl) : Grown s s i 0 fl where
  list := list
  pool := rfl
  kept _ _ := rfl
  new j within := absurd within (Nat.not_lt_zero j)
  zero _ member := absurd member List.not_mem_nil
  data _ _ := rfl
  count := id
  synced := id
  errno _ := rfl
  traced := .refl s
  ub := rfl

theorem trans (first : Grown s t i 1 fl) (rest : Grown t s' (i + 1) n (fl.drop 1)) (nodup : fl.Nodup) :
    Grown s s' i (n + 1) fl := by
  have whole : fl.take (n + 1) = fl.take 1 ++ (fl.drop 1).take n := by rw [Nat.add_comm, List.take_add]
  have split : fl.drop (n + 1) = (fl.drop 1).drop n := by rw [List.drop_drop, Nat.add_comm]
  have apart : (fl.take 1).Disjoint ((fl.drop 1).take n) := fun b inFirst inRest =>
    List.disjoint_of_nodup_append (by rwa [List.take_append_drop]) inFirst (List.mem_of_mem_take inRest)
  refine ⟨by rw [split]; exact rest.list, by rw [rest.pool, first.pool], fun j before => ?_, fun j within => ?_,
    fun b member => ?_, fun b avoid => ?_, fun counted => by rw [split]; exact rest.count (first.count counted),
    fun synced => rest.synced (first.synced synced), fun enough => ?_, first.traced.trans rest.traced,
    rest.ub.trans first.ub⟩
  · rw [rest.kept j (by omega), first.kept j before]
  · cases j with
    | zero => rw [rest.kept _ (by omega), first.new 0 (by omega)]
    | succ j =>
      have index : i + (j + 1) = i + 1 + j := by omega
      rw [index, rest.new j (by omega), List.getElem?_drop, Nat.add_comm 1 j]
  · rw [whole] at member
    rcases List.mem_append.mp member with inFirst | inRest
    · rw [rest.data b (apart inFirst), first.zero b inFirst]
    · exact rest.zero b inRest
  · rw [whole, List.mem_append, not_or] at avoid
    rw [rest.data b avoid.2, first.data b avoid.1]
  · rw [rest.errno (by rw [List.length_drop]; omega), first.errno (by omega)]

end Grown

theorem growBlocks_spec (list : FreeList s.stores fl) (limit : i + n ≤ 8344) : Grown s (growBlocks s i n) i n fl := by
  induction n generalizing s i fl with
  | zero => exact .refl list
  | succ n ih =>
    have next : (i : Int) + 1 = ((i + 1 : Nat) : Int) := by omega
    have one : Grown s (fSet (freeBlockAllocate s none).2 i (freeBlockAllocate s none).1) i 1 fl := by
      cases fl with
      | nil => exact grow_short list (by omega)
      | cons b fl => exact grow_one list (by omega)
    rw [growBlocks, next]
    exact one.trans (ih one.list (by omega)) list.nodup

/-- The part of `sfs_truncate` that works on file `k`. -/
def truncateTo (s : State) (k n : Nat) (fsize : Int) : State :=
  let listed := fnodeListing s k
  let t := growBlocks listed.2 listed.1 ((n : Int) - listed.1).toNat
  inodeSetAttrUpc (fnodeListingSet (fstreamFree t k n) k n) k fsize

/-- What `sfs_truncate` does after it has extended the list. -/
def trimTo (s : State) (k n : Nat) (fsize : Int) : State :=
  inodeSetAttrUpc (fnodeListingSet (fstreamFree s k n) k n) k fsize

/-- File `k` has been given the first `n` entries of `f`. Of these only the
ones on pages that were not in use before are the blocks acquired. -/
structure Truncated (L : Set Nat) (s s' : State) (k n : Nat) (f : Bytes) (fl : List Nat) : Prop where
  repaged : Repaged L s.stores.pool s'.stores.pool k n f
  old : ∀ o, Filled (endOf (s.stores.pool.cell k)) o → f o = bytesOf s.stores.pool k o
  new : ∀ j, size (s.stores.pool.cell k) ≤ j → j < n → (∀ o < 4, ¬ Filled (endOf (s.stores.pool.cell k)) (blknumSize * j + o)) →
    fNo f j = (fl[j - size (s.stores.pool.cell k)]?).getD 4294967295
  list : FreeList s'.stores (((blocksOf s.stores.pool k).drop n).reverse ++ fl.drop (n - size (s.stores.pool.cell k)))
  data : ∀ b, b ∉ (blocksOf s.stores.pool k).drop n → b ∉ fl.take (n - size (s.stores.pool.cell k)) →
    s'.stores.data b = s.stores.data b
  zero : ∀ b ∈ fl.take (n - size (s.stores.pool.cell k)), s'.stores.data b = fun _ => 0
  count : freeBlockSize s.stores.sup = fl.length → freeBlockSize s'.stores.sup =
    (((blocksOf s.stores.pool k).drop n).reverse ++ fl.drop (n - size (s.stores.pool.cell k))).length
  synced : Synced s → Synced s'
  traced : Traced s s'
  errno : n - size (s.stores.pool.cell k) ≤ fl.length → s'.errno = s.errno
  ub : s'.ub = s.ub

/-- A listing that ends with a page does not reach beyond its end. -/
theorem not_filled_of_aligned {o : Nat} (aligned : rows % 32 = 24) (past : blknumSize * rows ≤ o) :
    ¬ Filled (blknumSize * rows) o := by
  simp only [blknumSize] at past ⊢
  rintro (inline | wants)
  · omega
  · have before := wants.2
    rw [pagePtr_leafOf (by omega)] at before
    omega

/-- Cutting a file goes over its blocks once and sets its listing twice. -/
theorem trimTo_spec {v : Int} (owned : Owned L s.stores.pool) (live : k ∈ L)
    (file : isdir (s.stores.pool.cell k) = 0) (list : FreeList s.stores fl)
    (nodup : ((blocksOf s.stores.pool k).drop n ++ fl).Nodup)
    (area : ∀ b ∈ (blocksOf s.stores.pool k).drop n, 1025 ≤ b ∧ b < 32768) (limit : n ≤ 8344)
    (run : trimTo s k n v = s') (pops : Pops s.stores.pool (blknumSize * n) (endOf (s.stores.pool.cell k)) s') :
    ∃ f, (∀ o, Filled (endOf (s.stores.pool.cell k)) o → f o = bytesOf s.stores.pool k o) ∧
      (∀ o, ¬ Filled (endOf (s.stores.pool.cell k)) o → f o = s.f o) ∧
      Cut L s s' k n f fl (((blocksOf s.stores.pool k).drop n).reverse ++ fl) ∧
      fsize (s'.stores.pool.cell k) = uint32 (if v > FCONTENT_MAX_SIZE then FCONTENT_MAX_SIZE else v) ∧
      nlink (s'.stores.pool.cell k) = nlink (s.stores.pool.cell k) := by
  rw [trimTo] at run
  generalize midIs : fstreamFree s k n = mid at run
  generalize endIs : fnodeListingSet mid k n = last at run
  have laterLast : Later last s' := by
    rw [← run, inodeSetAttrUpc]
    exact later_inodeDump _ _ _
  have laterMid : Later mid last := by
    rw [← endIs, fnodeListingSet_eq limit]
    exact later_listingSet
  obtain ⟨f, filled, beyond, atF, links, cut⟩ := fstreamFree_spec owned live file list nodup area limit midIs
    (pops.of_later (laterMid.trans laterLast))
  obtain ⟨again, _, linksAgain⟩ := cut.again live atF file limit endIs
  have linksLast : nlink ((inodeSetAttrUpc last k v).stores.pool.cell k) = nlink (last.stores.pool.cell k) :=
    inodeSetAttrUpc_nlink again.repaged.owned.toMarked live (by rw [again.repaged.resized.isdir_eq, file])
  obtain ⟨set, atSize⟩ := again.setFsize (v := v) live file
  rw [run] at set atSize linksLast
  exact ⟨f, filled, beyond, set, atSize, linksLast.trans (linksAgain.trans links)⟩

theorem truncateTo_spec {v : Int} (owned : Owned L s.stores.pool) (live : k ∈ L)
    (file : isdir (s.stores.pool.cell k) = 0) (list : FreeList s.stores fl)
    (nodup : ((blocksOf s.stores.pool k).drop n ++ fl).Nodup)
    (area : ∀ b ∈ (blocksOf s.stores.pool k).drop n, 1025 ≤ b ∧ b < 32768) (limit : n ≤ 8344)
    (run : truncateTo s k n v = s')
    (pops : Pops s.stores.pool (blknumSize * n) (endOf (s.stores.pool.cell k)) s') :
    ∃ f, Truncated L s s' k n f fl ∧ fsize (s'.stores.pool.cell k) =
      uint32 (if v > FCONTENT_MAX_SIZE then FCONTENT_MAX_SIZE else v) ∧
      nlink (s'.stores.pool.cell k) = nlink (s.stores.pool.cell k) := by
  obtain ⟨f₀, listed, bytes₀, _⟩ := owned.fnodeListing_spec live file
  have fits := owned.fits k live
  have ends := endOf_file file
  have start : ({ s with f := f₀ } : State).stores = s.stores := stores_congr rfl
  have count : ((n : Int) - (size (s.stores.pool.cell k) : Nat)).toNat = n - size (s.stores.pool.cell k) := by omega
  simp only [truncateTo, listed, count] at run
  have grown := growBlocks_spec (s := { s with f := f₀ }) (i := size (s.stores.pool.cell k))
    (n := n - size (s.stores.pool.cell k)) (show FreeList ({ s with f := f₀ } : State).stores fl by rwa [start])
    (by rw [ends, blknumSize] at fits; omega)
  generalize growBlocks { s with f := f₀ } (size (s.stores.pool.cell k)) (n - size (s.stores.pool.cell k)) = t at *
  obtain ⟨listT, poolT, keptT, newT, zeroT, dataT, countT, syncedT, errnoT, tracedT, ubT⟩ := grown
  rw [start] at poolT countT dataT
  have blocksT : blocksOf t.stores.pool k = blocksOf s.stores.pool k := by rw [poolT]
  obtain ⟨f, filled, beyond, cut, atSize, links⟩ := trimTo_spec (s := t) (by rwa [poolT]) live (by rw [poolT]; exact file) listT
    (by rw [blocksT]; exact nodup.sublist ((List.drop_sublist _ _).append_left _)) (by rwa [blocksT]) limit run
    (by rwa [poolT])
  obtain ⟨repaged, list', data', count', synced', traced', errno', ub'⟩ := cut
  rw [poolT] at filled beyond repaged data' list' links
  rw [blocksT] at count'
  refine ⟨f, ⟨repaged, filled, fun j from₀ within out => ?_, list', fun b avoid fresh => ?_, fun b member => ?_,
    fun counted => count' (countT counted), fun synced => synced' (syncedT ?_), ?_,
    fun enough => errno'.trans (errnoT enough), ub'.trans ubT⟩, atSize, links⟩
  · have entry := newT (j - size (s.stores.pool.cell k)) (Nat.sub_lt_sub_right from₀ within)
    rw [Nat.add_sub_cancel' from₀] at entry
    rw [← entry]
    exact Bytes.get32_congr fun o ho => beyond _ (out o ho)
  · rw [data' b avoid, dataT b fresh]
  · rw [data' b, zeroT b member]
    intro held
    exact List.disjoint_of_nodup_append nodup held (List.mem_of_mem_take member)
  · rw [Synced, start]
    exact synced
  · exact ((show Traced s { s with f := f₀ } from .of_eq rfl).trans tracedT).trans traced'

/-- A file that loses blocks keeps the others. -/
theorem Truncated.shrink (trunc : Truncated L s s' k n f fl) (file : isdir (s.stores.pool.cell k) = 0)
    (fits : endOf (s.stores.pool.cell k) ≤ 33376) (shrinks : n ≤ size (s.stores.pool.cell k)) :
    blocksOf s'.stores.pool k = (blocksOf s.stores.pool k).take n ∧
      FileStep L s s' k n fl (((blocksOf s.stores.pool k).drop n).reverse ++ fl) := by
  obtain ⟨repaged, bytes, _, list, data, _, count, synced, traced, errno, ub⟩ := trunc
  have none : n - size (s.stores.pool.cell k) = 0 := by omega
  rw [none, List.drop_zero] at list count
  rw [none, List.take_zero] at data
  rw [none] at errno
  rw [endOf_file file] at bytes fits
  refine Cut.fileStep ⟨repaged, list, fun b avoid => data b avoid List.not_mem_nil,
    count, synced, traced, errno (Nat.zero_le _), ub⟩ file ?_
    (fun i hi => block_congr bytes fits (hi.trans_le shrinks)) shrinks
  simp only [blknumSize] at fits
  omega

/-- A file whose listing ends with a page can be given more blocks. -/
theorem Truncated.grow (trunc : Truncated L s s' k n f (taken ++ fl')) (file : isdir (s.stores.pool.cell k) = 0)
    (fits : endOf (s.stores.pool.cell k) ≤ 33376) (limit : n ≤ 8344)
    (aligned : size (s.stores.pool.cell k) % 32 = 24)
    (grows : n = size (s.stores.pool.cell k) + taken.length) :
    blocksOf s'.stores.pool k = blocksOf s.stores.pool k ++ taken ∧ FileStep L s s' k n (taken ++ fl') fl' := by
  obtain ⟨repaged, bytes, new, list, data, _, count, synced, traced, _, _⟩ := trunc
  have more : n - size (s.stores.pool.cell k) = taken.length := by omega
  have none : (blocksOf s.stores.pool k).drop n = [] :=
    List.drop_eq_nil_of_le (by simp only [blocksOf, List.length_map, List.length_range]; omega)
  rw [more, none, List.drop_left, List.reverse_nil, List.nil_append] at list count
  rw [more, none, List.take_left] at data
  rw [endOf_file file] at bytes fits new
  have blocks : blocksOf s'.stores.pool k = blocksOf s.stores.pool k ++ taken := by
    rw [repaged.blocksOf_eq file (by simp only [blknumSize]; omega), blocksOf, grows, List.range_add,
      List.map_append, List.map_map]
    congr 1
    · exact List.map_congr_left fun i hi => block_congr bytes fits (List.mem_range.mp hi)
    · refine List.ext_getElem (by simp) fun j hj hj' => ?_
      have within : size (s.stores.pool.cell k) + j < n := by
        rw [grows]
        exact Nat.add_lt_add_left hj' _
      have past : ∀ o, blknumSize * size (s.stores.pool.cell k) ≤ blknumSize * (size (s.stores.pool.cell k) + j) + o :=
        fun o => (Nat.mul_le_mul_left _ (Nat.le_add_right ..)).trans (Nat.le_add_right ..)
      have entry := new _ (Nat.le_add_right ..) within fun o _ => not_filled_of_aligned aligned (past o)
      rw [Nat.add_sub_cancel_left, List.getElem?_append_left hj', List.getElem?_eq_getElem hj'] at entry
      rw [List.getElem_map, List.getElem_range]
      exact entry
  refine ⟨blocks, ⟨f, repaged⟩, ?_, list, fun b _ notFree => ?_, count, synced, traced⟩
  · rw [blocks, List.append_assoc]
  · exact data b List.not_mem_nil fun member => notFree (List.mem_append_left _ member)

end Sfs
