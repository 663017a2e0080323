import Sfs.Write

namespace Sfs

variable {L : Set Nat} {s s' t : State} {p p' p'' : Pool Bytes} {bl fl fl' : List Nat} {k n i rows : Nat}
  {buf buf' f : Bytes}

/-- The blocks `bl` have been put on the free list. -/
structure Released (s s' : State) (bl fl : List Nat) : Prop where
  list : FreeList s'.stores (bl.reverse ++ fl)
  pool : s'.stores.pool = s.stores.pool
  data : ∀ b, b ∉ bl → s'.stores.data b = s.stores.data b
  count : freeBlockSize s.stores.sup = fl.length →
    freeBlockSize s'.stores.sup = (bl.reverse ++ fl).length
  number : freeBlockSize s'.stores.sup = int32 (freeBlockSize s.stores.sup + bl.length)
  synced : Synced s → Synced s'
  calm : Calm s s'

theorem int32_add (a b : Int) : int32 (int32 a + b) = int32 (a + b) := by
  rw [int32, int32, int32, Int.bmod_add_bmod]

theorem freeBlocks_spec (list : FreeList s.stores fl) (limit : i + n ≤ 8344)
    (nodup : ((List.range' i n).map (fNo s.f) ++ fl).Nodup)
    (area : ∀ b ∈ (List.range' i n).map (fNo s.f), 1025 ≤ b ∧ b < 32768) :
    Released s (freeBlocks s i n) ((List.range' i n).map (fNo s.f)) fl := by
  induction n generalizing s i fl with
  | zero =>
    have same : int32 (freeBlockSize s.stores.sup + (0 : Nat)) = freeBlockSize s.stores.sup := by
      rw [Nat.cast_zero, Int.add_zero, freeBlockSize, int32_getInt]
    exact ⟨list, rfl, fun _ _ => rfl, id, same.symm, id, .refl s⟩
  | succ n ih =>
    have next : (i : Int) + 1 = ((i + 1 : Nat) : Int) := by omega
    rw [List.range'_succ, List.map_cons] at nodup area ⊢
    obtain ⟨lower, upper⟩ := area _ (List.mem_cons_self ..)
    have block : fGet s i = fNo s.f i := fGet_nat (upper.trans (by decide))
    rw [freeBlocks, fBad_nat (by omega), fault_false, block, next]
    have rest := (List.nodup_cons.mp nodup)
    obtain ⟨list₁, pool, data, count, synced, calm⟩ := freeBlockPush_spec list lower upper
      fun member => rest.1 (List.mem_append_right _ member)
    have bound := list₁.length_le
    have moved : ((List.range' (i + 1) n).map (fNo s.f) ++ fNo s.f i :: fl).Nodup :=
      (List.perm_middle.nodup_iff).mpr nodup
    have ih' := ih (s := freeBlockPush s (fNo s.f i)) (i := i + 1) list₁ (by omega)
      (by rwa [calm.f]) (by rw [calm.f]; exact fun b member => area b (List.mem_cons_of_mem _ member))
    rw [calm.f] at ih'
    have same : ((fNo s.f i :: (List.range' (i + 1) n).map (fNo s.f)).reverse ++ fl) =
        ((List.range' (i + 1) n).map (fNo s.f)).reverse ++ fNo s.f i :: fl := by simp
    refine ⟨by rw [same]; exact ih'.list, by rw [ih'.pool, pool], fun b avoid => ?_, fun counted => ?_, ?_,
      fun _ => ih'.synced synced, calm.trans ih'.calm⟩
    · rw [List.mem_cons, not_or] at avoid
      rw [ih'.data b avoid.2, data b avoid.1]
    · rw [same]
      refine ih'.count ?_
      rw [count, counted, List.length_cons] at *
      rw [int32_of_mem (by omega) (by omega)]
      omega
    · rw [ih'.number, count, int32_add, List.length_cons, Nat.cast_succ, Int.add_assoc, Int.add_comm 1]

/-- Setting a listing twice to one size is like setting it once. -/
theorem Repaged.trans (live : k ∈ L) (first : Repaged L p p' k n buf) (second : Repaged L p' p'' k n buf') :
    Repaged L p p'' k n buf' := by
  have entry : entrySize (p'.cell k) = entrySize (p.cell k) := by
    rw [entrySize, entrySize, first.resized.isdir_eq]
  obtain ⟨⟨head, size, content, kept, fresh, inj, free, frame⟩, ends, owned⟩ := second
  rw [first.ends] at kept fresh free
  rw [entry] at content kept fresh inj free frame ends
  have old := first.resized
  refine ⟨⟨fun o within fixed => ?_, size, content, fun c wants was => ?_, fun c wants wasNot => ?_, inj,
    fun q => ?_, fun q ne avoid => ?_⟩, ends, owned⟩
  · rw [head o within fixed, old.head o within fixed]
  · rw [kept c wants wants, old.kept c wants was]
  · rw [kept c wants wants]
    exact old.fresh c wants wasNot
  · have none : ∀ c, ¬ Freed (entrySize (p.cell k) * n) (entrySize (p.cell k) * n) c := fun c freed =>
      freed.2.1 freed.1
    have used : ∀ c, Wants (entrySize (p.cell k) * n) c → p'.free (pageNo p'.cell (p'.cell k) c) = false := by
      intro c wants
      exact (first.owned.pagesOk live).used c (by rwa [first.ends])
    rw [free]
    constructor
    · rintro (⟨was, avoid⟩ | ⟨c, freed, _⟩)
      · rcases (old.free q).mp was with ⟨was₀, avoid₀⟩ | gone
        · exact Or.inl ⟨was₀, avoid⟩
        · exact Or.inr gone
      · exact absurd freed (none c)
    · intro h
      have was : p'.free q = true := by
        rw [old.free]
        refine h.imp_left fun free => ⟨free.1, fun c wants => ?_⟩
        rw [← kept c wants wants]
        exact free.2 c wants
      refine Or.inl ⟨was, fun c wants equal => ?_⟩
      rw [kept c wants wants] at equal
      rw [← equal, used c wants] at was
      exact Bool.false_ne_true was
  · rw [frame q ne avoid]
    refine old.frame q ne fun c wants => ?_
    rw [← kept c wants wants]
    exact avoid c wants

/-- File `k` has been given `n` entries of `f`, and its blocks past them have
been freed. -/
structure Cut (L : Set Nat) (s s' : State) (k n : Nat) (f : Bytes) (fl fl' : List Nat) : Prop where
  repaged : Repaged L s.stores.pool s'.stores.pool k n f
  list : FreeList s'.stores fl'
  data : ∀ b, b ∉ (blocksOf s.stores.pool k).drop n → s'.stores.data b = s.stores.data b
  count : freeBlockSize s.stores.sup = fl.length → freeBlockSize s'.stores.sup = fl'.length
  synced : Synced s → Synced s'
  traced : Traced s s'
  errno : s'.errno = s.errno
  ub : s'.ub = s.ub

theorem drop_blocksOf (p : Pool Bytes) (k n : Nat) :
    (blocksOf p k).drop n = (List.range' n (size (p.cell k) - n)).map (blockNo p k) := by
  rw [blocksOf, ← List.map_drop, List.range_eq_range', List.drop_range', Nat.zero_add, Nat.mul_one]

theorem fstreamFree_spec (owned : Owned L s.stores.pool) (live : k ∈ L)
    (file : isdir (s.stores.pool.cell k) = 0) (list : FreeList s.stores fl)
    (nodup : ((blocksOf s.stores.pool k).drop n ++ fl).Nodup)
    (area : ∀ b ∈ (blocksOf s.stores.pool k).drop n, 1025 ≤ b ∧ b < 32768) (limit : n ≤ 8344)
    (run : fstreamFree s k n = s')
    (pops : Pops s.stores.pool (blknumSize * n) (endOf (s.stores.pool.cell k)) s') :
    ∃ f, (∀ o, Filled (endOf (s.stores.pool.cell k)) o → f o = bytesOf s.stores.pool k o) ∧
      (∀ o, ¬ Filled (endOf (s.stores.pool.cell k)) o → f o = s.f o) ∧ s'.f = f ∧
      nlink (s'.stores.pool.cell k) = nlink (s.stores.pool.cell k) ∧
      Cut L s s' k n f fl (((blocksOf s.stores.pool k).drop n).reverse ++ fl) := by
  have fits := owned.fits k live
  have range := owned.node_range live
  have short : ushort k = k := ushort_nat (by omega)
  obtain ⟨f, listed, filled, beyond⟩ := owned.fnodeListing_spec live file
  have ends := endOf_file file
  have bytes := filled
  rw [ends] at bytes fits
  have number : ∀ i < size (s.stores.pool.cell k), fNo f i = blockNo s.stores.pool k i := fun i hi =>
    block_congr bytes fits hi
  have start : ({ s with f } : State).stores = s.stores := stores_congr rfl
  have dropped := drop_blocksOf s.stores.pool k n
  have tail : (List.range' n (size (s.stores.pool.cell k) - n)).map (fNo f) =
      (blocksOf s.stores.pool k).drop n := by
    rw [dropped]
    refine List.map_congr_left fun i hi => number i ?_
    have := List.mem_range'_1.mp hi
    omega
  have count : ((size (s.stores.pool.cell k) : Int) - (n : Int)).toNat = size (s.stores.pool.cell k) - n := by
    omega
  have released := freeBlocks_spec (s := { s with f }) (i := n) (n := size (s.stores.pool.cell k) - n)
    (show FreeList ({ s with f } : State).stores fl by rwa [start]) (by simp only [blknumSize] at fits; omega)
    (by rwa [tail]) (by rwa [tail])
  rw [tail] at released
  rw [fstreamFree, short, listed] at run
  dsimp only at run
  rw [count] at run
  generalize freeBlocks { s with f } n (size (s.stores.pool.cell k) - n) = t at released run
  have pool : t.stores.pool = s.stores.pool := by rw [released.pool, start]
  obtain ⟨reset, calm, inert⟩ := fnodeListingSet_spec (s := t) (by rwa [pool]) live (by rwa [pool]) limit run
    (by rwa [pool])
  have repaged := reset.toRepaged
  have atF : t.f = f := released.calm.f
  rw [pool, atF] at repaged
  have sup : s'.stores.sup = t.stores.sup := by rw [reset.rest, Stores.setPool_sup]
  have data : s'.stores.data = t.stores.data := by rw [reset.rest, Stores.setPool_data]
  have synced' : Synced s → Synced t := fun synced => released.synced (by rw [Synced, start]; exact synced)
  refine ⟨f, filled, beyond, calm.f.trans atF, ?_, repaged, ?_, fun b avoid => ?_, fun counted => ?_,
    fun synced => reset.synced (synced' synced), ?_, ?_, ?_⟩
  · rw [← pool]
    exact Bytes.get16_congr (inert 6 (by omega) (by omega)) (inert 7 (by omega) (by omega))
  · exact released.list.congr sup fun b _ => by rw [data]
  · rw [data, released.data b avoid, start]
  · rw [sup]
    exact released.count (by rwa [start])
  · exact ((show Traced s { s with f } from .of_eq rfl).trans released.calm.toTraced).trans reset.traced
  · rw [reset.errno, released.calm.errno]
  · rw [calm.ub, released.calm.ub]

/-- The listing is set once more. -/
theorem Cut.again {t' : State} (cut : Cut L s t k n f fl fl') (live : k ∈ L) (buf : t.f = f)
    (file : isdir (s.stores.pool.cell k) = 0) (limit : n ≤ 8344) (run : fnodeListingSet t k n = t') :
    Cut L s t' k n f fl fl' ∧ t'.f = f ∧ nlink (t'.stores.pool.cell k) = nlink (t.stores.pool.cell k) := by
  have file' : isdir (t.stores.pool.cell k) = 0 := by rw [cut.repaged.resized.isdir_eq, file]
  have size' := cut.repaged.resized.size
  obtain ⟨reset, calm, inert⟩ := fnodeListingSet_spec cut.repaged.owned live file' limit run
    (.of_le (by rw [endOf_file file', size']))
  have repaged := reset.toRepaged
  rw [buf] at repaged
  have sup : t'.stores.sup = t.stores.sup := by rw [reset.rest, Stores.setPool_sup]
  have data : t'.stores.data = t.stores.data := by rw [reset.rest, Stores.setPool_data]
  refine ⟨⟨cut.repaged.trans live repaged, cut.list.congr sup fun b _ => by rw [data], fun b avoid => ?_,
    fun counted => ?_, fun synced => reset.synced (cut.synced synced), cut.traced.trans reset.traced, ?_, ?_⟩,
    calm.f.trans buf, Bytes.get16_congr (inert 6 (by omega) (by omega)) (inert 7 (by omega) (by omega))⟩
  · rw [data, cut.data b avoid]
  · rw [sup, cut.count counted]
  · rw [reset.errno, cut.errno]
  · rw [calm.ub, cut.ub]

/-- The size in bytes is set afterwards. -/
theorem Cut.setFsize {v : Int} (cut : Cut L s t k n f fl fl') (live : k ∈ L)
    (file : isdir (s.stores.pool.cell k) = 0) : Cut L s (inodeSetAttrUpc t k v) k n f fl fl' ∧
      fsize ((inodeSetAttrUpc t k v).stores.pool.cell k) =
        uint32 (if v > FCONTENT_MAX_SIZE then FCONTENT_MAX_SIZE else v) := by
  have owned := cut.repaged.owned
  have file' : isdir (t.stores.pool.cell k) = 0 := by rw [cut.repaged.resized.isdir_eq, file]
  obtain ⟨x, quiet, stores, header, bytes⟩ := inodeSetAttrUpc_spec owned.toMarked live file' v
  generalize inodeSetAttrUpc t k v = t' at quiet stores
  have pool : t'.stores.pool = t.stores.pool.write k x := by rw [stores, Stores.setPool_pool]
  have sup : t'.stores.sup = t.stores.sup := by rw [stores, Stores.setPool_sup]
  have data : t'.stores.data = t.stores.data := by rw [stores, Stores.setPool_data]
  refine ⟨⟨?_, cut.list.congr sup fun b _ => by rw [data], fun b avoid => ?_, fun counted => ?_,
    fun synced => quiet.synced (cut.synced synced) sup, cut.traced.trans quiet.calm.toTraced, ?_, ?_⟩, ?_⟩
  · rw [pool]
    exact cut.repaged.header live header
  · rw [data, cut.data b avoid]
  · rw [sup, cut.count counted]
  · rw [quiet.errno_eq, cut.errno]
  · rw [quiet.ub_eq, cut.ub]
  · rw [pool, Pool.write_cell_self, bytes]

end Sfs
