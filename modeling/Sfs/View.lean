import Sfs.Slots

namespace Sfs

/-- The entries of node `k` as one byte array. -/
def bytesOf (p : Pool Bytes) (k : Nat) : Bytes := content p.cell (p.cell k)

def entName (p : Pool Bytes) (k i : Nat) : List UInt8 := Bytes.chars (bytesOf p k) (diEntSize * i) 14

def entInum (p : Pool Bytes) (k i : Nat) : Nat := (bytesOf p k).get16 (diEntSize * i + 14)

def blockNo (p : Pool Bytes) (k i : Nat) : Nat := (bytesOf p k).get32 (blknumSize * i)

variable {L : Set Nat} {s : State} {p p' : Pool Bytes} {k m n i : Nat} {buf x : Bytes}

theorem endOf_dir (dir : isdir x ≠ 0) : endOf x = diEntSize * size x := by
  rw [endOf, entrySize, if_pos dir]

theorem endOf_file (file : isdir x = 0) : endOf x = blknumSize * size x := by
  rw [endOf, entrySize, if_neg (not_not.mpr file)]

/-- Entry `i` of a listing is filled. -/
theorem filled_entry {entry o : Nat} (before : i < n) (within : entry * n ≤ 33376)
    (inEntry : o < entry) : Filled (entry * n) (entry * i + o) := by
  have step : entry * (i + 1) ≤ entry * n := Nat.mul_le_mul_left entry before
  exact filled_of_lt (by rw [Nat.mul_add] at step; omega) within

section Congr

variable {b b' : Bytes}

theorem name_congr (same : ∀ o, Filled (diEntSize * n) o → b' o = b o) (within : diEntSize * n ≤ 33376)
    (before : i < n) : Bytes.chars b' (diEntSize * i) 14 = Bytes.chars b (diEntSize * i) 14 :=
  Bytes.chars_congr fun j hj => same _ (filled_entry before within (by simp only [diEntSize]; omega))

theorem inum_congr (same : ∀ o, Filled (diEntSize * n) o → b' o = b o) (within : diEntSize * n ≤ 33376)
    (before : i < n) : b'.get16 (diEntSize * i + 14) = b.get16 (diEntSize * i + 14) :=
  Bytes.get16_congr (same _ (filled_entry before within (by simp only [diEntSize]; omega)))
    (same _ (filled_entry before within (by simp only [diEntSize]; omega)))

theorem block_congr (same : ∀ o, Filled (blknumSize * n) o → b' o = b o) (within : blknumSize * n ≤ 33376)
    (before : i < n) : b'.get32 (blknumSize * i) = b.get32 (blknumSize * i) :=
  Bytes.get32_congr fun _ hj => same _ (filled_entry before within (by simp only [blknumSize]; omega))

end Congr

theorem Marked.inodeLoad_eq (marked : Marked L s.stores.pool) (live : k ∈ L) :
    inodeLoad s k = s.stores.pool.cell k := by
  have range := marked.node_range live
  exact inodeLoad_cell (by omega) (by omega)

namespace Marked

variable (owned : Marked L s.stores.pool) (live : k ∈ L)

include owned live

variable (buf) in
/-- A listing fills the buffer with the entries of the node. -/
theorem listing_spec : (listing (entrySize (s.stores.pool.cell k)) s k buf).1 = size (s.stores.pool.cell k) ∧
    (∀ o, Filled (endOf (s.stores.pool.cell k)) o →
      (listing (entrySize (s.stores.pool.cell k)) s k buf).2 o = bytesOf s.stores.pool k o) ∧
    ∀ o, ¬ Filled (endOf (s.stores.pool.cell k)) o →
      (listing (entrySize (s.stores.pool.cell k)) s k buf).2 o = buf o := by
  have loaded := owned.inodeLoad_eq live
  refine ⟨by rw [listing, loaded], fun o filled => ?_, fun o beyond => ?_⟩
  swap
  · rw [listing_apply, loaded]
    exact if_neg beyond
  rw [listing_apply, loaded, if_pos (by exact filled), bytesOf]
  refine content_congr (fun _ _ => rfl) (fun c wants => ?_) filled
  have lower := (owned.pagesOk live).lower c wants
  have upper := (owned.pagesOk live).upper c wants
  exact inodeLoad_cell (by omega) (by omega)

theorem dnodeListing_spec (dir : isdir (s.stores.pool.cell k) ≠ 0) :
    ∃ d, dnodeListing s k = (size (s.stores.pool.cell k), { s with d }) ∧
      ∀ o, Filled (endOf (s.stores.pool.cell k)) o → d o = bytesOf s.stores.pool k o := by
  have spec := owned.listing_spec s.d live
  rw [entrySize, if_pos dir] at spec
  exact ⟨_, by rw [dnodeListing, spec.1], spec.2.1⟩

theorem fnodeListing_spec (file : isdir (s.stores.pool.cell k) = 0) :
    ∃ f, fnodeListing s k = (size (s.stores.pool.cell k), { s with f }) ∧
      (∀ o, Filled (endOf (s.stores.pool.cell k)) o → f o = bytesOf s.stores.pool k o) ∧
      ∀ o, ¬ Filled (endOf (s.stores.pool.cell k)) o → f o = s.f o := by
  have spec := owned.listing_spec s.f live
  rw [entrySize, if_neg (not_not.mpr file)] at spec
  exact ⟨_, by rw [fnodeListing, spec.1], spec.2⟩

/-- Giving a node the first `n` entries of a buffer, where no page is placed in slot 0 or 1. -/
theorem listingSet_stores {s' : State} (run : listingSet (entrySize (s.stores.pool.cell k)) buf s k n = s')
    (small : n < 65536)
    (pops : Pops s.stores.pool (entrySize (s.stores.pool.cell k) * n) (endOf (s.stores.pool.cell k)) s')
    (low : LowUsed s.stores.pool ∨ entrySize (s.stores.pool.cell k) * n ≤ endOf (s.stores.pool.cell k)) :
    Paging s s' ∧ s'.stores = s.stores.setPool s'.stores.pool ∧
      Resized s.stores.pool s'.stores.pool k (entrySize (s.stores.pool.cell k) * n) n buf
        (endOf (s.stores.pool.cell k)) ∧
      endOf (s'.stores.pool.cell k) = entrySize (s.stores.pool.cell k) * n ∧
      (∀ o, 6 ≤ o → o < 12 → s'.stores.pool.cell k o = s.stores.pool.cell k o) ∧
      Marked L s'.stores.pool := by
  have range := owned.node_range live
  have marked := owned.slots
  have cell : s.slots.cell k = s.stores.pool.cell k := slots_cell (by omega)
  have cell' : s'.slots.cell k = s'.stores.pool.cell k := slots_cell (by omega)
  rw [← cell] at run pops low ⊢
  rw [← cell']
  obtain ⟨paging, resized, ends, kept, _⟩ := marked.listingSet_spec live run small pops
  have pages := (marked.pagesOk live).lower
  have pages' : ∀ c, Wants (entrySize (s.slots.cell k) * n) c → 2 ≤ pageNo s'.slots.cell (s'.slots.cell k) c := by
    intro c wants
    by_cases was : Wants (endOf (s.slots.cell k)) c
    · rw [resized.kept c wants was]
      exact pages c was
    · rcases low with low | shrinks
      · exact low _ (resized.fresh c wants was).1
      · exact absurd (wants.mono shrinks) was
  have sup : s'.stores.sup = s.stores.sup :=
    resized.frame 0 (by omega) fun c wants same => by have := pages' c wants; omega
  have stores : s'.stores = s.stores.setPool s'.stores.pool := Stores.eq_of_parts sup rfl rfl paging.data
  replace resized := (above_slots s).resized (above_slots s') rfl (by omega)
    (fun c wants => (pages c wants).trans' (by omega)) (fun c wants => (pages' c wants).trans' (by omega)) resized
  have number : ∀ c, Wants (entrySize (s.slots.cell k) * n) c → 2 ≤ pageNo s'.stores.pool.cell (s'.stores.pool.cell k) c :=
    fun c wants => by
      rw [(above_slots s').pageNo_eq (by omega) (fun c wants => (pages' c wants).trans' (by omega)) wants]
      exact pages' c wants
  refine ⟨paging, stores, resized, ends, kept, ?_⟩
  rw [cell] at resized ends
  rw [cell'] at ends
  rw [cell] at number
  exact resized.marked owned live rfl ends fun c wants _ => number c wants

end Marked

namespace Holding

variable (owned : Holding L s.stores.pool) (live : k ∈ L)

include owned live

theorem listingSet_spec {s' : State} (run : listingSet (entrySize (s.stores.pool.cell k)) buf s k n = s')
    (small : n < 65536)
    (pops : Pops s.stores.pool (entrySize (s.stores.pool.cell k) * n) (endOf (s.stores.pool.cell k)) s') :
    Quiet s s' ∧ s'.stores = s.stores.setPool s'.stores.pool ∧
      Resized s.stores.pool s'.stores.pool k (entrySize (s.stores.pool.cell k) * n) n buf
        (endOf (s.stores.pool.cell k)) ∧
      endOf (s'.stores.pool.cell k) = entrySize (s.stores.pool.cell k) * n ∧
      (∀ o, 6 ≤ o → o < 12 → s'.stores.pool.cell k o = s.stores.pool.cell k o) ∧
      Holding L s'.stores.pool := by
  obtain ⟨paging, stores, resized, ends, kept, _⟩ :=
    owned.toMarked.listingSet_stores live run small pops (Or.inl owned.low)
  exact ⟨paging.quiet owned.low, stores, resized, ends, kept, resized.holding owned live rfl ends⟩

end Holding

theorem Owned.listingSet_spec (owned : Owned L s.stores.pool) (live : k ∈ L) {s' : State}
    (run : listingSet (entrySize (s.stores.pool.cell k)) buf s k n = s')
    (fits : entrySize (s.stores.pool.cell k) * n ≤ 33376)
    (pops : Pops s.stores.pool (entrySize (s.stores.pool.cell k) * n) (endOf (s.stores.pool.cell k)) s') :
    Quiet s s' ∧ s'.stores = s.stores.setPool s'.stores.pool ∧
      Resized s.stores.pool s'.stores.pool k (entrySize (s.stores.pool.cell k) * n) n buf
        (endOf (s.stores.pool.cell k)) ∧
      endOf (s'.stores.pool.cell k) = entrySize (s.stores.pool.cell k) * n ∧
      (∀ o, 6 ≤ o → o < 12 → s'.stores.pool.cell k o = s.stores.pool.cell k o) ∧
      Owned L s'.stores.pool := by
  have positive : 1 ≤ entrySize (s.stores.pool.cell k) := by
    simp only [entrySize, diEntSize, blknumSize]
    split <;> omega
  have small : n ≤ entrySize (s.stores.pool.cell k) * n := Nat.le_mul_of_pos_left n positive
  obtain ⟨quiet, stores, resized, ends, kept, _⟩ := owned.toHolding.listingSet_spec live run (by omega) pops
  exact ⟨quiet, stores, resized, ends, kept, resized.owned owned live rfl ends fits⟩

end Sfs
