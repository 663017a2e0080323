import Sfs.Read

namespace Sfs

variable {L : Set Nat} {s s' t t' : State} {fl fl' taken : List Nat} {b b₀ bSize g i k n ptr rows offset len : Nat}
  {f buf blkbuf : Bytes}

/-- Blocks have been taken for the entries from `i` on, and given the pages
of the buffer. -/
structure Appended (t t' : State) (blkbuf : Bytes) (b₀ i : Nat) (taken fl' : List Nat) : Prop where
  list : FreeList t'.stores fl'
  pool : t'.stores.pool = t.stores.pool
  kept : ∀ j < i, fNo t'.f j = fNo t.f j
  new : ∀ j (within : j < taken.length), fNo t'.f (i + j) = taken[j]
  page : ∀ j (within : j < taken.length), t'.stores.data taken[j] = pageAt blkbuf b₀ (i + j)
  data : ∀ b, b ∉ taken → t'.stores.data b = t.stores.data b
  count : freeBlockSize t.stores.sup = (taken ++ fl').length → freeBlockSize t'.stores.sup = fl'.length
  synced : Synced t → Synced t'
  errno : t'.errno = t.errno
  traced : Traced t t'
  ub : t'.ub = t.ub

/-- Past the end of the listing the write loop takes new blocks only. -/
theorem writeBlocks_fresh (blkbuf : Bytes) (list : FreeList t.stores (taken ++ fl')) (past : bSize ≤ i)
    (atPtr : ptr = 512 * (i - b₀)) (start : b₀ ≤ i) (limit : i + taken.length ≤ 8344) :
    ∃ t', writeBlocks t bSize (i + taken.length : Nat) i blkbuf ptr taken.length = (↑(i + taken.length), t') ∧
      Appended t t' blkbuf b₀ i taken fl' := by
  induction taken generalizing t i ptr with
  | nil => exact ⟨t, rfl, list, rfl, fun _ _ => rfl, fun j within => absurd within (Nat.not_lt_zero j),
      fun j within => absurd within (Nat.not_lt_zero j), fun _ _ => rfl, id, id, rfl, .refl t, rfl⟩
  | cons b taken ih =>
    rw [List.length_cons] at limit ⊢
    have next : (i : Int) + 1 = ((i + 1 : Nat) : Int) := by omega
    have stop : i + (taken.length + 1) = i + 1 + taken.length := by omega
    have cond : (i : Int) < (i + 1 + taken.length : Nat) ∧ (i : Int) < FENTRY_MAX_SIZE := by
      simp only [FENTRY_MAX_SIZE]
      omega
    have outside : ¬ (i : Int) < bSize := by omega
    obtain ⟨block, lower, hit⟩ := freeBlockAllocate_spec (g := i) (some fun j => blkbuf (ptr + j)) list
      (by omega)
    have positive : ¬ (freeBlockAllocate t (some fun j => blkbuf (ptr + j))).1 < 0 := by
      rw [block]
      omega
    rw [blockImage_some, pageAt_eq atPtr] at hit
    rw [writeBlocks, stop, if_pos cond]
    simp only [outside, if_false, next, positive]
    generalize fSet (freeBlockAllocate t (some fun j => blkbuf (ptr + j))).2 i
      (freeBlockAllocate t (some fun j => blkbuf (ptr + j))).1 = t₁ at hit ⊢
    obtain ⟨t', run, placed⟩ := ih (t := t₁) (i := i + 1) hit.list (by omega)
      (show ptr + BLOCK_SIZE = _ by simp only [BLOCK_SIZE]; omega) (by omega) (by omega)
    have apart : b ∉ taken := fun member =>
      (List.nodup_cons.mp list.nodup).1 (List.mem_append_left _ member)
    refine ⟨t', run, placed.list, by rw [placed.pool, hit.pool], fun j hj => ?_, fun j within => ?_,
      fun j within => ?_, fun c avoid => ?_, fun counted => placed.count (hit.count ?_),
      fun _ => placed.synced hit.synced, by rw [placed.errno, hit.errno], hit.traced.trans placed.traced,
      placed.ub.trans hit.ub⟩
    · rw [placed.kept j (by omega), hit.kept j hj]
    · cases j with
      | zero => exact (placed.kept i (by omega)).trans hit.new
      | succ j =>
        rw [List.length_cons] at within
        rw [show i + (j + 1) = i + 1 + j by omega, placed.new j (by omega)]
        rfl
    · cases j with
      | zero => exact (placed.data b apart).trans (by rw [hit.data, Function.update_self]; rfl)
      | succ j =>
        rw [List.length_cons] at within
        rw [show i + (j + 1) = i + 1 + j by omega]
        exact placed.page j (by omega)
    · rw [List.mem_cons, not_or] at avoid
      rw [placed.data c avoid.2, hit.data, Function.update_of_ne avoid.1]
    · simpa using counted

/-- File `k` has been written past the block after its last one. The list
entries of the hole are those that the listing has left in `f`. -/
structure Holed (L : Set Nat) (s s' : State) (k : Nat) (buf : Bytes) (offset len : Nat) (f : Bytes)
    (taken fl' : List Nat) : Prop where
  repaged : ∃ g, Repaged L s.stores.pool s'.stores.pool k (offset / 512 + taken.length) g
  kept : ∀ j < offset / 512, blockNo s'.stores.pool k j = fNo f j
  new : ∀ j (within : j < taken.length), blockNo s'.stores.pool k (offset / 512 + j) = taken[j]
  list : FreeList s'.stores fl'
  page : ∀ j (within : j < taken.length), ∀ o < 512, s'.stores.data taken[j] o =
    if offset ≤ 512 * (offset / 512 + j) + o ∧ 512 * (offset / 512 + j) + o < offset + len
    then buf (512 * (offset / 512 + j) + o - offset) else 0
  data : ∀ b, b ∉ taken → s'.stores.data b = s.stores.data b
  fsize : fsize (s.stores.pool.cell k) < 2147483648 →
    fsize (s'.stores.pool.cell k) = min (max (fsize (s.stores.pool.cell k)) (offset + len)) FCONTENT_MAX_SIZE
  count : freeBlockSize s.stores.sup = (taken ++ fl').length → freeBlockSize s'.stores.sup = fl'.length
  synced : Synced s → Synced s'
  traced : Traced s s'
  ub : s'.ub = s.ub

theorem fstreamWrite_hole (buf : Bytes) (owned : Owned L s.stores.pool) (live : k ∈ L)
    (file : isdir (s.stores.pool.cell k) = 0) (list : FreeList s.stores (taken ++ fl'))
    (small : offset + len < 2147483648) (limit : lastBlock offset len ≤ 8344)
    (hole : size (s.stores.pool.cell k) < offset / 512) (enough : taken.length = lastBlock offset len - offset / 512)
    (listed : fnodeListing s k = (size (s.stores.pool.cell k), { s with f }))
    (pops : Pops s.stores.pool (blknumSize * lastBlock offset len) (endOf (s.stores.pool.cell k))
      (fstreamWrite s k buf len offset).2) :
    Holed L s (fstreamWrite s k buf len offset).2 k buf offset len f taken fl' ∧
      (fstreamWrite s k buf len offset).2.errno = 0 ∧ (s.errno = 0 → (fstreamWrite s k buf len offset).1 = len) := by
  have range := owned.node_range live
  have order := start_le_lastBlock offset len
  have start : ({ s with f } : State).stores = s.stores := stores_congr rfl
  have stopIs : offset / 512 + taken.length = lastBlock offset len := by omega
  generalize rowsIs : size (s.stores.pool.cell k) = rows at *
  obtain ⟨blkbuf, image, run⟩ := fstreamWrite_eq buf owned.toMarked live file small listed (by omega)
  obtain ⟨t, loop, placed⟩ := writeBlocks_fresh (t := { s with f }) (i := offset / 512) blkbuf
    (show FreeList ({ s with f } : State).stores (taken ++ fl') by rwa [start]) hole.le
    (show 0 = 512 * (offset / 512 - offset / 512) by omega) le_rfl (by omega)
  have pool : t.stores.pool = s.stores.pool := by rw [placed.pool, start]
  have newRows : (if (rows : Int) > (lastBlock offset len : Nat) then (rows : Int) else (lastBlock offset len : Nat)) =
      (lastBlock offset len : Nat) := if_neg (by omega)
  rw [stopIs, enough] at loop
  simp only [loop, newRows] at run
  generalize setIs : fnodeListingSet (inodeSetAttrUpc t k _) k (lastBlock offset len : Nat) = t₃ at run
  have trace : (fstreamWrite s k buf len offset).2.trace = t₃.trace := by rw [run]; rfl
  have stores' : (fstreamWrite s k buf len offset).2.stores = t₃.stores := by
    rw [run]
    exact stores_congr rfl
  obtain ⟨recorded, _⟩ := record_spec (t := t) (by rwa [pool]) live (by rw [pool]; exact file) limit setIs (by
    rw [pool]
    exact pops.of_later (.of_eq trace))
  have repaged := recorded.repaged
  rw [pool] at repaged
  have fits : blknumSize * lastBlock offset len ≤ 33376 := by
    simp only [blknumSize]
    omega
  have number : ∀ j < lastBlock offset len, blockNo t₃.stores.pool k j = fNo t.f j := fun j hj =>
    repaged.blockNo_eq file fits hj
  have data : t₃.stores.data = t.stores.data := by rw [recorded.rest, Stores.setPool_data]
  have sup : t₃.stores.sup = t.stores.sup := by rw [recorded.rest, Stores.setPool_sup]
  refine ⟨⟨⟨t.f, ?_⟩, fun j before => ?_, fun j within => ?_, ?_, fun j within o inPage => ?_, fun b avoid => ?_,
    fun small' => ?_, fun counted => ?_, fun synced => ?_, ?_, ?_⟩, ?_, fun clear => ?_⟩
  · rw [stores', stopIs]
    exact repaged
  · rw [stores', number j (by omega), placed.kept j before]
  · rw [stores', number _ (by omega), placed.new j within]
  · rw [stores']
    exact placed.list.congr sup fun b _ => by rw [data]
  · rw [stores', data, placed.page j within,
      image_page (fun i => blockRead s (fGet { s with f } i)) image rfl (by omega) (by omega) inPage]
    split
    · rfl
    · exact if_neg (by omega)
  · rw [stores', data, placed.data b avoid, start]
  · rw [stores', recorded.fsize, newFsize_eq small']
  · rw [stores', sup]
    exact placed.count (by rwa [start])
  · have synced₃ : Synced t₃ := recorded.synced (placed.synced (by rw [Synced, start]; exact synced))
    rw [Synced, stores', run]
    exact synced₃
  · have traced : Traced s t := (show Traced s { s with f } from .of_eq rfl).trans placed.traced
    exact (traced.trans recorded.traced).trans (.of_eq trace)
  · rw [run]
    exact recorded.ub.trans placed.ub
  · rw [run]
    rfl
  · have none : t₃.errno = 0 := by rw [recorded.errno, placed.errno, clear]
    rw [run]
    simp only [errnoPop, none, Int.lt_irrefl, if_false]

end Sfs
