import Sfs.Owned

namespace Sfs

/-- The pools agree from slot 1 on. -/
structure Above (p p' : Pool Bytes) : Prop where
  cell : ∀ q, 1 ≤ q → p'.cell q = p.cell q
  free : p'.free = p.free

variable {L : Set Nat} {s s' : State} {p p' q q' : Pool Bytes} {k m n i c o ptrEnd cacheEnd entry : Nat} {buf : Bytes}

theorem above_slots (s : State) : Above s.slots s.stores.pool := ⟨fun _ lower => (slots_cell lower).symm, rfl⟩

namespace Above

theorem symm (above : Above p p') : Above p' p := ⟨fun q lower => (above.cell q lower).symm, above.free.symm⟩

theorem pageNo_eq (above : Above p q) (lower : 1 ≤ k)
    (pages : ∀ c, Wants ptrEnd c → 1 ≤ pageNo p.cell (p.cell k) c) (wants : Wants ptrEnd c) :
    pageNo q.cell (q.cell k) c = pageNo p.cell (p.cell k) c := by
  rw [above.cell k lower]
  refine pageNo_congr (fun _ _ => rfl) (fun i hi index j hj => ?_) wants
  have number := pages _ index
  rw [pageNo_index] at number
  rw [above.cell _ number]

theorem content_eq (above : Above p q) (lower : 1 ≤ k)
    (pages : ∀ c, Wants ptrEnd c → 1 ≤ pageNo p.cell (p.cell k) c) (filled : Filled ptrEnd o) :
    content q.cell (q.cell k) o = content p.cell (p.cell k) o := by
  rw [above.cell k lower]
  exact content_congr (fun _ _ => rfl) (fun c wants => above.cell _ (pages c wants)) filled

theorem same (above : Above p p') (marked : Marked L p) (live : m ∈ L) : Same p p' m := fun c holds =>
  above.cell _ (by have := marked.range m live c holds; omega)

theorem marked (above : Above p p') (marked : Marked L p) : Marked L p' := by
  have cell : ∀ k ∈ L, p'.cell k = p.cell k := fun k live => (above.same marked live).cell_eq
  have number : ∀ k ∈ L, ∀ c, Holds (p.cell k) c → placeNo p'.cell k c = placeNo p.cell k c := fun k live _ holds =>
    (above.same marked live).placeNo_eq holds
  constructor
  · intro k live k' live' c c' holds holds' same
    rw [cell k live] at holds
    rw [cell k' live'] at holds'
    rw [number k live c holds, number k' live' c' holds'] at same
    exact marked.inj k live k' live' c c' holds holds' same
  · intro k live c holds
    rw [cell k live] at holds
    rw [number k live c holds]
    exact marked.range k live c holds
  · intro k live c holds
    rw [cell k live] at holds
    rw [number k live c holds, above.free]
    exact marked.used k live c holds
  · intro k live
    rw [cell k live]
    exact marked.own k live

/-- The listing of a node does not depend on slot 0 when none of its pages is there. -/
theorem resized (old : Above p q) (new : Above p' q') (zero : q'.cell 0 = q.cell 0) (lower : 1 ≤ k)
    (pages : ∀ c, Wants cacheEnd c → 1 ≤ pageNo p.cell (p.cell k) c)
    (pages' : ∀ c, Wants ptrEnd c → 1 ≤ pageNo p'.cell (p'.cell k) c)
    (resized : Resized p p' k ptrEnd n buf cacheEnd) : Resized q q' k ptrEnd n buf cacheEnd := by
  have number := fun c => old.pageNo_eq (c := c) lower pages
  have number' := fun c => new.pageNo_eq (c := c) lower pages'
  constructor
  · intro o within fixed
    rw [old.cell k lower, new.cell k lower]
    exact resized.head o within fixed
  · rw [new.cell k lower]
    exact resized.size
  · intro o filled
    rw [new.content_eq lower pages' filled]
    exact resized.content o filled
  · intro c wants was
    rw [number' c wants, number c was]
    exact resized.kept c wants was
  · intro c wants wasNot
    rw [number' c wants, old.free]
    exact resized.fresh c wants wasNot
  · intro c c' wants wants' same
    rw [number' c wants, number' c' wants'] at same
    exact resized.inj c c' wants wants' same
  · intro r
    rw [new.free, old.free, resized.free]
    refine or_congr (and_congr_right fun _ => forall₂_congr fun c wants => ?_)
      (exists_congr fun c => and_congr_right fun freed => ?_)
    · rw [number' c wants]
    · rw [number c freed.1]
  · intro r ne avoid
    rcases Nat.eq_zero_or_pos r with rfl | positive
    · exact zero
    · rw [old.cell r positive, new.cell r positive]
      exact resized.frame r ne fun c wants => number' c wants ▸ avoid c wants

end Above

theorem Marked.slots (marked : Marked L s.stores.pool) : Marked L s.slots := (above_slots s).symm.marked marked

/-- A listing fills the buffer with the entries of the node. -/
theorem listing_slots (entryIs : entrySize (s.slots.cell k) = entry) (upper : k < 4096)
    (pages : ∀ c, Wants (endOf (s.slots.cell k)) c → pageNo s.slots.cell (s.slots.cell k) c < 4096) (buf : Bytes) :
    (listing entry s k buf).1 = size (s.slots.cell k) ∧
      (∀ o, Filled (endOf (s.slots.cell k)) o → (listing entry s k buf).2 o = content s.slots.cell (s.slots.cell k) o) ∧
      ∀ o, ¬ Filled (endOf (s.slots.cell k)) o → (listing entry s k buf).2 o = buf o := by
  have loaded : inodeLoad s k = s.slots.cell k := inodeLoad_slot upper
  have ends : entry * size (s.slots.cell k) = endOf (s.slots.cell k) := by rw [← entryIs, endOf]
  refine ⟨by rw [listing, loaded], fun o filled => ?_, fun o beyond => ?_⟩
  · rw [listing_apply, loaded, ends, if_pos filled]
    exact content_congr (fun _ _ => rfl) (fun c wants => inodeLoad_slot (pages c wants)) filled
  · rw [listing_apply, loaded, ends]
    exact if_neg beyond

namespace Marked

variable (marked : Marked L s.slots) (live : k ∈ L)

include marked live

/-- Giving a node the first `n` entries of a buffer. -/
theorem listingSet_supplied (run : listingSet (entrySize (s.slots.cell k)) buf s k n = s') (small : n < 65536)
    (supplied : Supplied s.slots (entrySize (s.slots.cell k) * n) (endOf (s.slots.cell k)) s') :
    Paging s s' ∧ Resized s.slots s'.slots k (entrySize (s.slots.cell k) * n) n buf (endOf (s.slots.cell k)) ∧
      endOf (s'.slots.cell k) = entrySize (s.slots.cell k) * n ∧
      (∀ o, 6 ≤ o → o < 12 → s'.slots.cell k o = s.slots.cell k o) ∧
      ∀ c, Wants (endOf (s'.slots.cell k)) c → pageNo s'.slots.cell (s'.slots.cell k) c < 1024 ∧
        pageNo s'.slots.cell (s'.slots.cell k) c ≠ k := by
  have range := marked.node_range live
  have pages := marked.pagesOk live
  have apart := fun c wants => marked.page_ne_node live live (c := c) wants
  have cacheIs : endOf (s.slots.cell k) = entrySize (s.slots.cell k) * size (s.slots.cell k) := by rw [endOf]
  have used := marked.node_used live
  rw [cacheIs] at supplied pages apart ⊢
  rw [← run] at supplied
  have spec := Sfs.listingSet_spec range.1 range.2 (marked.own k live) used pages apart small supplied
  rw [run] at spec
  obtain ⟨paging, resized, kept⟩ := spec
  have ends : endOf (s'.slots.cell k) = entrySize (s.slots.cell k) * n := by
    rw [endOf, entrySize, resized.isdir_eq, resized.size, entrySize]
  refine ⟨paging, resized, ends, kept, fun c wants => ?_⟩
  rw [ends] at wants
  by_cases was : Wants (entrySize (s.slots.cell k) * size (s.slots.cell k)) c
  · rw [resized.kept c wants was]
    exact ⟨pages.upper c was, apart c was⟩
  · obtain ⟨free, upper⟩ := resized.fresh c wants was
    refine ⟨upper, fun same => ?_⟩
    rw [same, used] at free
    exact Bool.false_ne_true free

theorem listingSet_spec (run : listingSet (entrySize (s.slots.cell k)) buf s k n = s') (small : n < 65536)
    (pops : Pops s.slots (entrySize (s.slots.cell k) * n) (endOf (s.slots.cell k)) s') :
    Paging s s' ∧ Resized s.slots s'.slots k (entrySize (s.slots.cell k) * n) n buf (endOf (s.slots.cell k)) ∧
      endOf (s'.slots.cell k) = entrySize (s.slots.cell k) * n ∧
      (∀ o, 6 ≤ o → o < 12 → s'.slots.cell k o = s.slots.cell k o) ∧
      ∀ c, Wants (endOf (s'.slots.cell k)) c → pageNo s'.slots.cell (s'.slots.cell k) c < 1024 ∧
        pageNo s'.slots.cell (s'.slots.cell k) c ≠ k := marked.listingSet_supplied live run small (Or.inl pops)

end Marked

/-- The new pages have been free. -/
theorem Resized.room (resized : Resized p p' k ptrEnd n buf cacheEnd) : pageCount ptrEnd cacheEnd ≤ p.freeCount 1024 := by
  rw [pageCount, Pool.freeCount]
  refine Finset.card_le_card_of_injOn (pageNo p'.cell (p'.cell k)) (fun c member => ?_) fun c member c' member' same => ?_
  · obtain ⟨_, wants, wasNot⟩ := Finset.mem_filter.mp (Finset.mem_coe.mp member)
    obtain ⟨free, upper⟩ := resized.fresh c wants wasNot
    exact Finset.mem_coe.mpr (Finset.mem_filter.mpr ⟨Finset.mem_range.mpr upper, free⟩)
  · obtain ⟨_, wants, _⟩ := Finset.mem_filter.mp (Finset.mem_coe.mp member)
    obtain ⟨_, wants', _⟩ := Finset.mem_filter.mp (Finset.mem_coe.mp member')
    exact resized.inj c c' wants wants' same

/-- A listing that was set without an error had room for its pages. -/
theorem Marked.room_of_clear (marked : Marked L s.stores.pool) (live : k ∈ L)
    (run : listingSet (entrySize (s.stores.pool.cell k)) buf s k n = s') (small : n < 65536) (clear : 0 ≤ s'.errno) :
    pageCount (entrySize (s.stores.pool.cell k) * n) (endOf (s.stores.pool.cell k)) ≤ s.stores.pool.freeCount 1024 := by
  have range := marked.node_range live
  have cell : s.slots.cell k = s.stores.pool.cell k := slots_cell (by omega)
  rw [← cell] at run ⊢
  exact (marked.slots.listingSet_supplied live run small (Or.inr clear)).2.1.room

end Sfs
