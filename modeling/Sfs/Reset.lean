import Sfs.FreeList
import Sfs.View

namespace Sfs

variable {L : Set Nat} {s s₁ s' : State} {k m n i : Nat} {buf x : Bytes}

/-- Node `k` has been given the first `n` entries of `buf`. -/
structure Repaged (L : Set Nat) (p p' : Pool Bytes) (k n : Nat) (buf : Bytes) : Prop where
  resized : Resized p p' k (entrySize (p.cell k) * n) n buf (endOf (p.cell k))
  ends : endOf (p'.cell k) = entrySize (p.cell k) * n
  owned : Owned L p'

namespace Repaged

variable {p p' : Pool Bytes} (repaged : Repaged L p p' k n buf)

include repaged

theorem same (owned : Owned L p) (live : k ∈ L) (live' : m ∈ L) (ne : m ≠ k) : Same p p' m :=
  repaged.resized.same owned.toMarked live rfl live' ne

theorem apart (live : k ∈ L) {c : Nat} (wants : Wants (entrySize (p.cell k) * n) c) :
    pageNo p'.cell (p'.cell k) c ≠ k :=
  repaged.owned.page_ne_node live live (by rwa [repaged.ends])

/-- The link count or the size in bytes are set afterwards. -/
theorem header (live : k ∈ L) (same : ∀ o, o < 6 ∨ 12 ≤ o → x o = p'.cell k o) :
    Repaged L p (p'.write k x) k n buf := by
  obtain ⟨owned, _, ends, _⟩ := repaged.owned.header live same
  refine ⟨repaged.resized.header (fun c wants => repaged.apart live wants) same, ?_, owned⟩
  rw [Pool.write_cell_self, ends, repaged.ends]

/-- A listing that keeps its pages leaves the bitmap as it is. -/
theorem free_eq (owned : Owned L p) (live : k ∈ L)
    (pages : ∀ i, Wants (entrySize (p.cell k) * n) i ↔ Wants (endOf (p.cell k)) i) : p'.free = p.free := by
  funext q
  have same : p'.free q = true ↔ p.free q = true := by
    rw [repaged.resized.free]
    constructor
    · rintro (⟨free, _⟩ | ⟨i, freed, _⟩)
      · exact free
      · exact absurd ((pages i).mpr freed.1) freed.2.1
    · refine fun free => Or.inl ⟨free, fun i wants => ?_⟩
      rw [repaged.resized.kept i wants ((pages i).mp wants)]
      rintro rfl
      have used := owned.used k live i (.page ((pages i).mp wants))
      rw [placeNo_page wants, free] at used
      exact absurd used (by decide)
  rw [Bool.eq_iff_iff]
  exact same

end Repaged

/-- The link count or the size in bytes have been set before. -/
theorem Repaged.of_header {p p' : Pool Bytes} (owned : Owned L p) (live : k ∈ L)
    (same : ∀ o, o < 6 ∨ 12 ≤ o → x o = p.cell k o) (repaged : Repaged L (p.write k x) p' k n buf) :
    Repaged L p p' k n buf := by
  have self : (p.write k x).cell k = x := Pool.write_cell_self ..
  obtain ⟨_, _, ends, _⟩ := owned.header live same
  obtain ⟨⟨head, size, content, kept, fresh, inj, free, frame⟩, endIs, owned'⟩ := repaged
  have entry : entrySize x = entrySize (p.cell k) := by rw [entrySize, entrySize, isdir, isdir, same 12 (by omega)]
  rw [self] at content kept fresh inj free frame endIs
  rw [entry] at content kept fresh inj free frame endIs
  rw [ends] at kept fresh free
  have number : ∀ c, Wants (endOf (p.cell k)) c → pageNo (p.write k x).cell x c = pageNo p.cell (p.cell k) c :=
    fun c wants => pageNo_header (fun c wants => owned.page_ne_node live live wants)
      (fun o _ => same o (by omega)) wants
  refine ⟨⟨fun o within fixed => ?_, size, content, fun c wants was => ?_, fresh, inj, fun q => ?_,
    fun q ne avoid => ?_⟩, endIs, owned'⟩
  · rw [head o within fixed, self, same o (by omega)]
  · rw [kept c wants was, number c was]
  · rw [free]
    refine or_congr Iff.rfl (exists_congr fun c => and_congr_right fun freed => ?_)
    rw [number c freed.1]
  · rw [frame q ne avoid, Pool.write_cell_of_ne _ _ ne]

/-- Of the disk only the inodes have changed. -/
structure Reset (L : Set Nat) (s s' : State) (k n : Nat) (buf : Bytes) : Prop
    extends Repaged L s.stores.pool s'.stores.pool k n buf where
  traced : Traced s s'
  errno : s'.errno = s.errno
  synced : Synced s → Synced s'
  rest : s'.stores = s.stores.setPool s'.stores.pool

namespace Reset

theorem of_listingSet (owned : Owned L s.stores.pool) (live : k ∈ L)
    (run : listingSet (entrySize (s.stores.pool.cell k)) buf s k n = s')
    (fits : entrySize (s.stores.pool.cell k) * n ≤ 33376)
    (pops : Pops s.stores.pool (entrySize (s.stores.pool.cell k) * n) (endOf (s.stores.pool.cell k)) s') :
    Reset L s s' k n buf ∧ Calm s s' ∧
      ∀ o, 6 ≤ o → o < 12 → s'.stores.pool.cell k o = s.stores.pool.cell k o := by
  obtain ⟨quiet, rest, resized, ends, kept, owned'⟩ := owned.listingSet_spec live run fits pops
  have sup : s'.stores.sup = s.stores.sup := by rw [rest, Stores.setPool_sup]
  exact ⟨⟨⟨resized, ends, owned'⟩, quiet.calm.toTraced, quiet.errno_eq,
    fun synced => quiet.synced synced sup, rest⟩, quiet.calm, kept⟩

/-- The start may differ in the listing buffers. -/
theorem congr (reset : Reset L s₁ s' k n buf) (stores : s₁.stores = s.stores) (trace : s₁.trace = s.trace)
    (errno : s₁.errno = s.errno) (synced : Synced s → Synced s₁) : Reset L s s' k n buf := by
  obtain ⟨repaged, traced, errno', synced', rest⟩ := reset
  rw [stores] at rest repaged
  exact ⟨repaged, (Traced.of_eq trace).trans traced, errno'.trans errno, fun h => synced' (synced h), rest⟩

variable (reset : Reset L s s' k n buf)

include reset

/-- Setting the link count or the size in bytes afterwards changes nothing here. -/
theorem inodeDump (live : k ∈ L) (same : ∀ o, o < 6 ∨ 12 ≤ o → x o = s'.stores.pool.cell k o) :
    Reset L s (inodeDump s' k x) k n buf := by
  have range := reset.owned.node_range live
  have quiet : Quiet s' (Sfs.inodeDump s' k x) := quiet_inodeDump range.1 range.2
  have stores : (Sfs.inodeDump s' k x).stores = _ := stores_inodeDump (by omega) (by omega)
  have same' : ∀ o, o < 6 ∨ 12 ≤ o → x.take 128 o = s'.stores.pool.cell k o := fun o out => by
    rw [← cell_take]
    simp only [Bytes.take, same o out]
  have pool : (Sfs.inodeDump s' k x).stores.pool = s'.stores.pool.write k (x.take 128) := by
    rw [stores, Stores.setPool_pool]
  refine ⟨?_, reset.traced.trans quiet.calm.toTraced, by rw [quiet.errno_eq, reset.errno], fun synced =>
    quiet.synced (reset.synced synced) (by rw [stores, Stores.setPool_sup]), ?_⟩
  · rw [pool]
    exact reset.toRepaged.header live same'
  · rw [stores]
    exact Stores.setPool_rest _ reset.rest

end Reset

end Sfs
