import Sfs.Entries
import Sfs.Reset

namespace Sfs

/-- The entries of directory `k`. -/
def dirTable (p : Pool Bytes) (k : Nat) : Table (List UInt8) Nat :=
  ⟨size (p.cell k), entName p k, entInum p k⟩

variable {L : Set Nat} {s s' final : State} {p p' : Pool Bytes} {k m n i ptrEnd cacheEnd : Nat} {item : Bytes}

theorem Pops.of_later (pops : Pops p ptrEnd cacheEnd final) (later : Later s final) :
    Pops p ptrEnd cacheEnd s := pops.imp_left fun never member => never (later _ member)

theorem Pops.congr (pops : Pops p ptrEnd cacheEnd final) (free : p'.free = p.free) :
    Pops p' ptrEnd cacheEnd final := by
  have count : p'.freeCount 1024 = p.freeCount 1024 := by simp only [Pool.freeCount, free]
  rw [Pops] at pops ⊢
  rwa [count]

/-- A smaller listing needs no new pages. -/
theorem pageCount_of_le (shrinks : ptrEnd ≤ cacheEnd) : pageCount ptrEnd cacheEnd = 0 :=
  Finset.card_eq_zero.mpr (Finset.filter_eq_empty_iff.mpr fun _ _ both => both.2 (both.1.mono shrinks))

theorem Pops.of_le (shrinks : ptrEnd ≤ cacheEnd) : Pops p ptrEnd cacheEnd final :=
  Or.inr ((pageCount_of_le shrinks).trans_le (Nat.zero_le _))

theorem ushort_nat (within : k < 65536) : ushort k = k := by simp only [ushort]; omega

theorem ushort_lt (v : Int) : ushort v < 65536 := by simp only [ushort]; omega

theorem Same.agree (same : Same p p' m) (dir : isdir (p.cell m) ≠ 0) (fits : endOf (p.cell m) ≤ 33376) :
    Table.Agree (dirTable p m) (dirTable p' m) := by
  have bytes : ∀ o, Filled (diEntSize * size (p.cell m)) o → bytesOf p' m o = bytesOf p m o := fun o h =>
    same.content_eq (by rwa [endOf_dir dir])
  rw [endOf_dir dir] at fits
  exact ⟨by simp only [dirTable, same.cell_eq], fun i hi =>
    ⟨name_congr bytes fits hi, inum_congr bytes fits hi⟩⟩

/-- The rows of a directory that has been given the first entries of `buf`. -/
theorem Reset.row {buf : Bytes} (reset : Reset L s s' k n buf) (dir : isdir (s.stores.pool.cell k) ≠ 0)
    (within : diEntSize * n ≤ 33376) (before : i < n) :
    entName s'.stores.pool k i = Bytes.chars buf (diEntSize * i) 14 ∧
      entInum s'.stores.pool k i = buf.get16 (diEntSize * i + 14) := by
  have content := reset.resized.content
  rw [entrySize, if_pos dir] at content
  exact ⟨name_congr content within before, inum_congr content within before⟩

/-- The rows in the listing buffer are those of the directory. -/
theorem rowsOf_agree {d : Bytes} (bytes : ∀ o, Filled (diEntSize * n) o → d o = bytesOf p k o)
    (fits : diEntSize * n ≤ 33376) (rows : size (p.cell k) = n) : Table.Agree (dirTable p k) (rowsOf d n) := by
  refine ⟨rows.symm, fun i hi => ?_⟩
  rw [dirTable, rows] at hi
  exact ⟨name_congr bytes fits hi, inum_congr bytes fits hi⟩

/-- The directory has the rows of the buffer it has been given. -/
theorem Reset.agree {buf : Bytes} (reset : Reset L s s' k n buf) (dir : isdir (s.stores.pool.cell k) ≠ 0)
    (within : diEntSize * n ≤ 33376) : Table.Agree (rowsOf buf n) (dirTable s'.stores.pool k) :=
  ⟨reset.resized.size, fun _ hi => reset.row dir within hi⟩

theorem setNlink_apply {x : Bytes} {v o : Nat} (out : o < 6 ∨ 12 ≤ o) : setNlink x v o = x o :=
  Bytes.put16_apply_of_ne (by omega)

theorem dnodeListingSet_eq (within : n < 2086) : dnodeListingSet s k n = listingSet diEntSize s.d s k n := by
  rw [dnodeListingSet, if_neg (by simp only [DENTRY_MAX_SIZE]; omega)]

/-- A directory is given the entries in the buffer, and its link count is set. -/
theorem dnodeListingSet_spec (owned : Owned L s.stores.pool) (live : k ∈ L)
    (dir : isdir (s.stores.pool.cell k) ≠ 0) (within : n < 2086) (run : dnodeListingSet s k n = s')
    (pops : Pops s.stores.pool (diEntSize * n) (endOf (s.stores.pool.cell k)) s') :
    Reset L s s' k n s.d ∧ Calm s s' ∧ nlink (inodeLoad s' k) = nlink (s.stores.pool.cell k) ∧
      ∀ v, Reset L s (inodeDump s' k (setNlink (inodeLoad s' k) v)) k n s.d := by
  have entry : entrySize (s.stores.pool.cell k) = diEntSize := if_pos dir
  rw [dnodeListingSet_eq within, ← entry] at run
  rw [← entry] at pops
  obtain ⟨reset, calm, kept⟩ := Reset.of_listingSet owned live run
    (by simp only [entry, diEntSize]; omega) pops
  refine ⟨reset, calm, ?_, fun v => reset.inodeDump live fun o out => ?_⟩
  · rw [reset.owned.inodeLoad_eq live]
    exact Bytes.get16_congr (kept 6 (by omega) (by omega)) (kept 7 (by omega) (by omega))
  · rw [setNlink_apply out, reset.owned.inodeLoad_eq live]

/-- The link count that is written last. -/
theorem nlink_inodeDump {v : Nat} (lower : 1 ≤ k) (upper : k < 4096) (small : v < 65536) :
    nlink ((inodeDump s k (setNlink x v)).stores.pool.cell k) = v := by
  rw [stores_inodeDump lower upper, Stores.setPool_pool, Pool.write_cell_self, nlink, Bytes.get16_take (by omega), setNlink,
    Bytes.get16_put16_self, Nat.mod_eq_of_lt small]

/-- A directory is given the entries in `d`, and a link count that depends on the old one. -/
theorem dnodeSet_spec {s₁ : State} {d : Bytes} {v : Nat → Nat} (owned : Owned L s.stores.pool) (live : k ∈ L)
    (dir : isdir (s.stores.pool.cell k) ≠ 0) (within : n < 2086) (small : ∀ a, v a < 65536)
    (mid : dnodeListingSet { s with d } k n = s₁)
    (run : inodeDump s₁ k (setNlink (inodeLoad s₁ k) (v (nlink (inodeLoad s₁ k)))) = s')
    (pops : Pops s.stores.pool (diEntSize * n) (endOf (s.stores.pool.cell k)) s₁) :
    Reset L s s' k n d ∧ nlink (s'.stores.pool.cell k) = v (nlink (s.stores.pool.cell k)) ∧ s'.ub = s.ub := by
  have range := owned.node_range live
  have start : ({ s with d } : State).stores = s.stores := stores_congr rfl
  have ownedStart : Owned L ({ s with d } : State).stores.pool := by rwa [start]
  obtain ⟨_, calm, links, dumped⟩ := dnodeListingSet_spec ownedStart live (by rwa [start]) within mid (by rwa [start])
  have counted : nlink (s'.stores.pool.cell k) = _ := run ▸ nlink_inodeDump (by omega) (by omega) (small _)
  rw [links, start] at counted
  have reset := (dumped (v (nlink (inodeLoad s₁ k)))).congr start rfl rfl fun synced => by
    rw [Synced, start]
    exact synced
  have quiet : Quiet s₁ s' := by
    rw [← run]
    exact quiet_inodeDump range.1 range.2
  rw [run] at reset
  exact ⟨reset, counted, quiet.ub_eq.trans calm.ub⟩

theorem dnodeAppend_spec (owned : Owned L s.stores.pool) (live : k ∈ L)
    (dir : isdir (s.stores.pool.cell k) ≠ 0) (room : size (s.stores.pool.cell k) + 1 < 2086)
    (run : dnodeAppend s k item = s')
    (pops : Pops s.stores.pool (diEntSize * (size (s.stores.pool.cell k) + 1))
      (endOf (s.stores.pool.cell k)) s') :
    (∃ buf, Reset L s s' k (size (s.stores.pool.cell k) + 1) buf) ∧
      Table.Pushed (dirTable s.stores.pool k) (dirTable s'.stores.pool k) (Bytes.chars item 0 14)
        (item.get16 14) ∧
      nlink (s'.stores.pool.cell k) = ushort ((nlink (s.stores.pool.cell k) : Int) + 1) ∧ s'.ub = s.ub := by
  obtain ⟨d, listed, bytes⟩ := owned.dnodeListing_spec live dir
  generalize rows : size (s.stores.pool.cell k) = n at *
  have range := owned.node_range live
  have short : ushort k = k := ushort_nat (by omega)
  have inside : decide (n ≥ DENTRY_MAX_SIZE) = false := by simp only [DENTRY_MAX_SIZE]; simp; omega
  generalize buf : d.copy (diEntSize * n) item 0 diEntSize = d' at *
  simp only [dnodeAppend, short, listed, inside, fault_false, buf] at run
  generalize mid : dnodeListingSet { s with d := d' } k (n + 1) = s₁ at run
  have pops₁ : Pops s.stores.pool (diEntSize * (n + 1)) (endOf (s.stores.pool.cell k)) s₁ :=
    pops.of_later (run ▸ later_inodeDump _ _ _)
  obtain ⟨reset, counted, ub⟩ := dnodeSet_spec (n := n + 1) (v := fun a => ushort ((a : Int) + 1)) owned live dir (by omega)
    (fun _ => ushort_lt _) mid run pops₁
  have fits : diEntSize * (n + 1) ≤ 33376 := by simp only [diEntSize]; omega
  rw [endOf_dir dir, rows] at bytes
  have agree := rowsOf_agree bytes (by simp only [diEntSize]; omega) rows
  have pushed := rowsOf_pushed d item n
  rw [buf] at pushed
  exact ⟨⟨d', reset⟩, (agree.pushed pushed).agree (reset.agree dir fits), counted, ub⟩

end Sfs
