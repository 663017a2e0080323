import Sfs.RoundTrip

namespace Sfs

/-- The number of pages with their first entry before `ptrEnd`: leaf pages,
index pages and the leaf pages of these. -/
def pagesOf (ptrEnd : Nat) : Nat := ((Finset.range 264).filter (Wants ptrEnd)).card

/-- The leaf pages that a listing no longer needs, of index pages that stay. These are not given back. -/
def stranded (ptrEnd cacheEnd : Nat) : Nat :=
  ((Finset.range 264).filter fun c => (Wants cacheEnd c ∧ ¬ Wants ptrEnd c) ∧
    4 ≤ c ∧ 608 + 8192 * ((c - 4) / 65) < ptrEnd).card

/-- Node `k` has given back the pages it no longer needs, and nothing else has become free. -/
structure ExactPages (p p' : Pool Bytes) (k ptrEnd cacheEnd : Nat) : Prop where
  count : (p'.freeCount 1024 : Int) - p.freeCount 1024 = pagesOf cacheEnd - pagesOf ptrEnd
  given : ∀ c, Wants cacheEnd c → ¬ Wants ptrEnd c → p'.free (pageNo p.cell (p.cell k) c) = true
  only : ∀ q, p'.free q = true → p.free q = true ∨
    ∃ c, Wants cacheEnd c ∧ ¬ Wants ptrEnd c ∧ pageNo p.cell (p.cell k) c = q

/-- An index page that stays keeps all of its leaf pages. -/
def KeepsLeaves (ptrEnd cacheEnd : Nat) : Prop := ∀ i < 4, 608 + 8192 * i < ptrEnd →
  ∀ j < 64, 608 + 8192 * i + 128 * j < cacheEnd → 608 + 8192 * i + 128 * j < ptrEnd

instance (ptrEnd cacheEnd : Nat) : Decidable (KeepsLeaves ptrEnd cacheEnd) :=
  inferInstanceAs (Decidable (∀ i < 4, _ → ∀ j < 64, _ → _))

variable {L : Set Nat} {s : State} {p p' : Pool Bytes} {k m n i j c ptrEnd cacheEnd : Nat} {buf : Bytes}

/-- Then every page that is dropped is released. -/
theorem KeepsLeaves.freed (keeps : KeepsLeaves ptrEnd cacheEnd) (had : Wants cacheEnd c) (dropped : ¬ Wants ptrEnd c) :
    Freed ptrEnd cacheEnd c := by
  refine ⟨had, dropped, fun past => ?_⟩
  rcases code_cases had.1 with first | ⟨i, hi, rfl⟩ | ⟨i, hi, j, hj, rfl⟩
  · omega
  · rw [wants_index hi] at dropped
    rw [indexCode_sub]
    omega
  · rw [wants_leaf hi hj] at had dropped
    have group : (65 * i + (j + 1)) / 65 = i := by omega
    rw [leafCode_sub, group]
    by_contra stays
    exact dropped (keeps i hi (by omega) j hj had)

theorem not_freed_leaf (hi : i < 4) (hj : j < 64) (stays : 608 + 8192 * i < ptrEnd) :
    ¬ Freed ptrEnd cacheEnd (leafCode i j) := by
  rintro ⟨_, _, past⟩
  have group : (65 * i + (j + 1)) / 65 = i := by omega
  have := past (by simp only [leafCode]; omega)
  rw [leafCode_sub, group] at this
  omega

theorem pagesOf_exchange (ptrEnd cacheEnd : Nat) : pagesOf ptrEnd +
    ((Finset.range 264).filter fun c => Wants cacheEnd c ∧ ¬ Wants ptrEnd c).card = pagesOf cacheEnd +
    ((Finset.range 264).filter fun c => Wants ptrEnd c ∧ ¬ Wants cacheEnd c).card := by
  have split : ∀ a b : Nat, ((Finset.range 264).filter fun c => Wants a c ∧ ¬ Wants b c) =
      (Finset.range 264).filter (Wants a) \ (Finset.range 264).filter (Wants b) := fun a b => by
    ext c
    simp only [Finset.mem_filter, Finset.mem_sdiff]
    tauto
  have first := Finset.card_sdiff_add_card ((Finset.range 264).filter (Wants ptrEnd))
    ((Finset.range 264).filter (Wants cacheEnd))
  have second := Finset.card_sdiff_add_card ((Finset.range 264).filter (Wants cacheEnd))
    ((Finset.range 264).filter (Wants ptrEnd))
  rw [Finset.union_comm] at second
  rw [split, split, pagesOf, pagesOf]
  omega

theorem freed_iff : Freed ptrEnd cacheEnd c ↔
    (Wants cacheEnd c ∧ ¬ Wants ptrEnd c) ∧ ¬ (4 ≤ c ∧ 608 + 8192 * ((c - 4) / 65) < ptrEnd) := by
  rw [Freed, ← and_assoc, not_and, not_lt]

/-- The pages taken and the pages given back, and those that are neither. -/
theorem Resized.balance (resized : Resized p p' k ptrEnd n buf cacheEnd) (holding : Holding L p)
    (live : k ∈ L) (cacheIs : endOf (p.cell k) = cacheEnd) :
    p'.freeCount 1024 + pagesOf ptrEnd + stranded ptrEnd cacheEnd = p.freeCount 1024 + pagesOf cacheEnd := by
  have pages := holding.pagesOk live
  rw [cacheIs] at pages
  have count := Pool.freeCount_exchange p p' 1024 ((Finset.range 264).filter fun c => Wants ptrEnd c ∧ ¬ Wants cacheEnd c)
    ((Finset.range 264).filter fun c => (Wants cacheEnd c ∧ ¬ Wants ptrEnd c) ∧
      ¬ (4 ≤ c ∧ 608 + 8192 * ((c - 4) / 65) < ptrEnd))
    (pageNo p'.cell (p'.cell k)) (pageNo p.cell (p.cell k)) (fun q => ?_) (fun c member => ?_)
    (fun c member c' member' same => ?_) (fun c member => ?_) (fun c member c' member' same => ?_)
  · have exchange := pagesOf_exchange ptrEnd cacheEnd
    have split := Finset.card_filter_add_card_filter_not
      (s := (Finset.range 264).filter fun c => Wants cacheEnd c ∧ ¬ Wants ptrEnd c)
      (fun c => 4 ≤ c ∧ 608 + 8192 * ((c - 4) / 65) < ptrEnd)
    rw [Finset.filter_filter, Finset.filter_filter] at split
    rw [stranded]
    omega
  · rw [resized.free]
    refine or_congr (and_congr_right fun isFree => ⟨fun avoid c member => ?_, fun avoid c wants same => ?_⟩)
      (exists_congr fun c => and_congr_left fun _ => ⟨fun freed => ?_, fun member => ?_⟩)
    · exact avoid c (Finset.mem_filter.mp member).2.1
    · by_cases was : Wants cacheEnd c
      · rw [resized.kept c wants was] at same
        rw [← same, pages.used c was] at isFree
        exact Bool.false_ne_true isFree
      · exact avoid c (Finset.mem_filter.mpr ⟨Finset.mem_range.mpr wants.1, wants, was⟩) same
    · exact Finset.mem_filter.mpr ⟨Finset.mem_range.mpr freed.1.1, freed_iff.mp freed⟩
    · exact freed_iff.mpr (Finset.mem_filter.mp member).2
  · obtain ⟨_, wants, was⟩ := Finset.mem_filter.mp member
    exact resized.fresh c wants was
  · exact resized.inj c c' (Finset.mem_filter.mp member).2.1 (Finset.mem_filter.mp member').2.1 same
  · obtain ⟨_, ⟨had, _⟩, _⟩ := Finset.mem_filter.mp member
    exact ⟨pages.used c had, pages.upper c had⟩
  · exact pages.inj c c' (Finset.mem_filter.mp member).2.1.1 (Finset.mem_filter.mp member').2.1.1 same

/-- Without index pages that lose leaf pages nothing is left behind. -/
theorem KeepsLeaves.stranded_eq (keeps : KeepsLeaves ptrEnd cacheEnd) : stranded ptrEnd cacheEnd = 0 := by
  refine Finset.card_eq_zero.mpr (Finset.filter_eq_empty_iff.mpr fun c _ left => ?_)
  exact (freed_iff.mp (keeps.freed left.1.1 left.1.2)).2 left.2

theorem KeepsLeaves.of_le (longer : cacheEnd ≤ ptrEnd) : KeepsLeaves ptrEnd cacheEnd := fun _ _ _ _ _ had => by omega

/-- A listing that gets longer keeps its pages. -/
theorem pagesOf_grown (longer : cacheEnd ≤ ptrEnd) : pagesOf ptrEnd = pagesOf cacheEnd + pageCount ptrEnd cacheEnd := by
  have exchange := pagesOf_exchange ptrEnd cacheEnd
  have none : (Finset.range 264).filter (fun c => Wants cacheEnd c ∧ ¬ Wants ptrEnd c) = ∅ :=
    Finset.filter_eq_empty_iff.mpr fun c _ both => both.2 (both.1.mono longer)
  rw [none, Finset.card_empty] at exchange
  rw [pageCount]
  exact exchange

/-- The inodes that a listing takes when it gets longer. -/
theorem Resized.grown_count (resized : Resized p p' k ptrEnd n buf cacheEnd) (holding : Holding L p) (live : k ∈ L)
    (cacheIs : endOf (p.cell k) = cacheEnd) (longer : cacheEnd ≤ ptrEnd) :
    p'.freeCount 1024 + pageCount ptrEnd cacheEnd = p.freeCount 1024 := by
  have balance := resized.balance holding live cacheIs
  rw [pagesOf_grown longer, (KeepsLeaves.of_le longer).stranded_eq] at balance
  omega

/-- The pages given back are exactly those no longer needed, but for leaf
pages of an index page that stays. -/
theorem Resized.exactPages_iff (resized : Resized p p' k ptrEnd n buf cacheEnd) (holding : Holding L p)
    (live : k ∈ L) (cacheIs : endOf (p.cell k) = cacheEnd) :
    ExactPages p p' k ptrEnd cacheEnd ↔ KeepsLeaves ptrEnd cacheEnd := by
  have pages := holding.pagesOk live
  rw [cacheIs] at pages
  constructor
  · rintro exact i hi stays j hj had
    by_contra dropped
    have wants : Wants cacheEnd (leafCode i j) := (wants_leaf hi hj).mpr had
    have notWants : ¬ Wants ptrEnd (leafCode i j) := fun wants' => dropped ((wants_leaf hi hj).mp wants')
    rcases (resized.free _).mp (exact.given _ wants notWants) with ⟨isFree, _⟩ | ⟨c, freed, same⟩
    · rw [pages.used _ wants] at isFree
      exact Bool.false_ne_true isFree
    · obtain rfl := pages.inj c _ freed.1 wants same
      exact not_freed_leaf hi hj stays freed
  · intro keeps
    have balance := resized.balance holding live cacheIs
    rw [keeps.stranded_eq] at balance
    refine ⟨by omega, fun c had dropped => (resized.free _).mpr (Or.inr ⟨c, keeps.freed had dropped, rfl⟩), fun q isFree => ?_⟩
    rcases (resized.free q).mp isFree with ⟨was, _⟩ | ⟨c, freed, same⟩
    · exact Or.inl was
    · exact Or.inr ⟨c, freed.1, freed.2.1, same⟩

/-- Setting a listing gives back exactly the pages it no longer needs if and
only if no leaf page of an index page that stays is among them. -/
theorem listingSet_exactPages_iff (holding : Holding L s.stores.pool) (live : k ∈ L) :
    (∀ n ≤ FENTRY_MAX_SIZE, isdir (s.stores.pool.cell k) = 0 →
      pageCount (blknumSize * n) (endOf (s.stores.pool.cell k)) ≤ s.stores.pool.freeCount 1024 →
      (ExactPages s.stores.pool (fnodeListingSet s k n).stores.pool k (blknumSize * n)
        (endOf (s.stores.pool.cell k)) ↔ KeepsLeaves (blknumSize * n) (endOf (s.stores.pool.cell k)))) ∧
    ∀ n < DENTRY_MAX_SIZE, isdir (s.stores.pool.cell k) ≠ 0 →
      pageCount (diEntSize * n) (endOf (s.stores.pool.cell k)) ≤ s.stores.pool.freeCount 1024 →
      (ExactPages s.stores.pool (dnodeListingSet s k n).stores.pool k (diEntSize * n)
        (endOf (s.stores.pool.cell k)) ↔ KeepsLeaves (diEntSize * n) (endOf (s.stores.pool.cell k))) := by
  refine ⟨fun n limit file room => ?_, fun n limit dir room => ?_⟩
  · obtain ⟨_, _, _, resized⟩ := fnodeListingSet_roundTrip holding live file limit room rfl
    exact resized.exactPages_iff holding live rfl
  · obtain ⟨_, _, _, resized⟩ := dnodeListingSet_roundTrip holding live dir limit room rfl
    exact resized.exactPages_iff holding live rfl

/-- The root after it has been given 47 entries. -/
theorem root_grown {s : State} (run : dnodeListingSet (sfsInit Bytes.zero) 2 (47 : Nat) = s) :
    Holding {2} s.stores.pool ∧ isdir (s.stores.pool.cell 2) ≠ 0 ∧ endOf (s.stores.pool.cell 2) = diEntSize * 47 := by
  have initial := sfsInit_initial Bytes.zero
  have good := initial.good
  obtain ⟨_, _, holding, resized⟩ := dnodeListingSet_roundTrip good.owned.toHolding rfl good.tree.top.dir (by decide)
    (initial.room_root (by decide)) run
  have dir : isdir (s.stores.pool.cell 2) ≠ 0 := by
    rw [resized.isdir_eq]
    exact good.tree.top.dir
  exact ⟨holding, dir, by rw [endOf_dir dir, resized.size]⟩

/-- The root has been given 47 entries, and then 39. -/
theorem shrink_loses_leaf : ∃ s : State, s = dnodeListingSet (sfsInit Bytes.zero) 2 (47 : Nat) ∧
    Holding {2} s.stores.pool ∧ isdir (s.stores.pool.cell 2) ≠ 0 ∧ endOf (s.stores.pool.cell 2) = diEntSize * 47 ∧
    pageCount (diEntSize * 39) (diEntSize * 47) ≤ s.stores.pool.freeCount 1024 ∧
    ¬ ExactPages s.stores.pool (dnodeListingSet s 2 (39 : Nat)).stores.pool 2 (diEntSize * 39) (diEntSize * 47) := by
  generalize grownIs : dnodeListingSet (sfsInit Bytes.zero) 2 (47 : Nat) = s
  obtain ⟨holding, dir, ends⟩ := root_grown grownIs
  have fewer : pageCount (diEntSize * 39) (diEntSize * 47) = 0 := by decide
  refine ⟨s, rfl, holding, dir, ends, by omega, fun exact => ?_⟩
  obtain ⟨_, _, _, resized⟩ := dnodeListingSet_roundTrip (n := 39) holding rfl dir (by decide) (by rw [ends]; omega) rfl
  have keeps := (resized.exactPages_iff holding rfl rfl).mp (by rw [ends]; exact exact)
  rw [ends] at keeps
  exact absurd keeps (by decide)

/-- The root has been given 47 entries, and then 38: the index page and its two leaf pages are given back. -/
theorem listingSet_exactPages_root : ∃ s : State, s = dnodeListingSet (sfsInit Bytes.zero) 2 (47 : Nat) ∧
    endOf (s.stores.pool.cell 2) = diEntSize * 47 ∧ pagesOf (diEntSize * 47) = pagesOf (diEntSize * 38) + 3 ∧
    ExactPages s.stores.pool (dnodeListingSet s 2 (38 : Nat)).stores.pool 2 (diEntSize * 38)
      (endOf (s.stores.pool.cell 2)) := by
  generalize grownIs : dnodeListingSet (sfsInit Bytes.zero) 2 (47 : Nat) = s
  obtain ⟨holding, dir, ends⟩ := root_grown grownIs
  have fewer : pageCount (diEntSize * 38) (diEntSize * 47) = 0 := by decide
  refine ⟨s, rfl, ends, by decide, ((listingSet_exactPages_iff holding rfl).2 38 (by decide) dir (by rw [ends]; omega)).mpr ?_⟩
  rw [ends]
  decide

end Sfs
