import Sfs.Live

namespace Sfs

variable {L : Set Nat} {s s' : State} {cell : Nat → Bytes} {x lv1 inode buf : Bytes} {k q n i j c ptr ptrEnd base entry : Nat}

/-- Dumping what is there already. -/
theorem inodeDump_again (within : q < 65536) (there : inodeLoad s q = x.take 128) : (inodeDump s q x).disk = s.disk := by
  rw [inodeDump_eq within]
  rw [inodeLoad_window within] at there
  funext o
  by_cases inside : 128 * q ≤ o ∧ o < 128 * q + 128
  · have byte := congrFun there (o - 128 * q)
    rw [Bytes.window_apply_of_lt (by omega), Bytes.take_apply_of_lt (by omega)] at byte
    dsimp only
    rw [Bytes.copy_apply_of_mem inside.1 inside.2, Nat.zero_add, ← byte]
    congr 1
    omega
  · exact Bytes.copy_apply_of_not_mem (by omega)

/-! Once the pages hold their parts of the buffer, the loops leave the disk as it is. -/

theorem setPages_again (count : i + n = 4) (atPtr : ptr = 96 + 128 * i)
    (held : ∀ c, i ≤ c → c < 4 → 96 + 128 * c < ptrEnd → inodeLoad s (pnum inode c) = pageOf buf (96 + 128 * c)) :
    (setPages buf ptrEnd ptrEnd s inode ptr i n).1.disk = s.disk ∧
      (setPages buf ptrEnd ptrEnd s inode ptr i n).2 = inode := by
  induction n generalizing s ptr i with
  | zero => exact ⟨rfl, rfl⟩
  | succ n ih =>
    rw [setPages]
    split
    next past =>
      rw [if_neg (by omega)]
      exact ih (by omega) (by omega) fun c lower => held c (by omega)
    next before =>
      dsimp only
      have here := held i le_rfl (by omega) (by omega)
      rw [← atPtr] at here
      have disk : (inodeDump s (pnum inode i) (pageOf buf ptr)).disk = s.disk :=
        inodeDump_again (Bytes.get16_lt _ _) (by rw [take_pageOf]; exact here)
      obtain ⟨same, rest⟩ := ih (s := inodeDump s (pnum inode i) (pageOf buf ptr)) (i := i + 1)
        (by omega) (show ptr + 128 = _ by omega) fun c lower upper within => by
          rw [inodeLoad_congr disk]
          exact held c (by omega) upper within
      exact ⟨same.trans disk, rest⟩

theorem setLeaves_again (count : j + n = 64) (atPtr : ptr = base + 128 * j)
    (held : ∀ a, j ≤ a → a < 64 → base + 128 * a < ptrEnd → inodeLoad s (exnum lv1 a) = pageOf buf (base + 128 * a)) :
    (setLeaves buf ptrEnd ptrEnd s lv1 ptr j n).1.disk = s.disk ∧
      (setLeaves buf ptrEnd ptrEnd s lv1 ptr j n).2 = lv1 := by
  induction n generalizing s ptr j with
  | zero => exact ⟨rfl, rfl⟩
  | succ n ih =>
    rw [setLeaves]
    split
    next before =>
      rw [if_neg (by omega)]
      have here := held j le_rfl (by omega) (by omega)
      rw [← atPtr] at here
      have disk : (inodeDump s (exnum lv1 j) (pageOf buf ptr)).disk = s.disk :=
        inodeDump_again (Bytes.get16_lt _ _) (by rw [take_pageOf]; exact here)
      obtain ⟨same, rest⟩ := ih (s := inodeDump s (exnum lv1 j) (pageOf buf ptr)) (j := j + 1)
        (by omega) (show ptr + 128 = _ by omega) fun a lower upper within => by
          rw [inodeLoad_congr disk]
          exact held a (by omega) upper within
      exact ⟨same.trans disk, rest⟩
    next past => exact ih (by omega) (by omega) fun a lower => held a (by omega)

theorem setIndex_again (count : i + n = 4) (atPtr : ptr = 608 + 8192 * i)
    (held : ∀ g, i ≤ g → g < 4 → ∀ a < 64, 608 + 8192 * g + 128 * a < ptrEnd →
      inodeLoad s (exnum (inodeLoad s (exPnum inode g)) a) = pageOf buf (608 + 8192 * g + 128 * a)) :
    (setIndex buf ptrEnd ptrEnd s inode ptr i n).1.disk = s.disk ∧
      (setIndex buf ptrEnd ptrEnd s inode ptr i n).2 = inode := by
  induction n generalizing s ptr i with
  | zero => exact ⟨rfl, rfl⟩
  | succ n ih =>
    rw [setIndex]
    split
    next past =>
      rw [if_neg (show ¬ ptr < ptrEnd by omega), setIndex_idle past past]
      exact ⟨rfl, rfl⟩
    next before =>
      obtain ⟨leaves, table⟩ := setLeaves_again (s := s) (j := 0) (n := 64) rfl
        (show ptr = ptr + 128 * 0 from rfl) fun a _ upper within => by
          rw [atPtr] at within ⊢
          exact held i le_rfl (by omega) a upper within
      have bound : exPnum inode i < 65536 := Bytes.get16_lt _ _
      have cut : (inodeLoad s (exPnum inode i)).take 128 = inodeLoad s (exPnum inode i) := by
        rw [inodeLoad_window bound]
        exact Bytes.take_take
      dsimp only
      rw [table]
      generalize (setLeaves buf ptrEnd ptrEnd s (inodeLoad s (exPnum inode i)) ptr 0 64).1 = t at *
      have disk : (inodeDump t (exPnum inode i) (inodeLoad s (exPnum inode i))).disk = s.disk :=
        (inodeDump_again bound (by rw [inodeLoad_congr leaves, cut])).trans leaves
      obtain ⟨same, rest⟩ := ih (s := inodeDump t (exPnum inode i) (inodeLoad s (exPnum inode i)))
        (i := i + 1) (by omega) (show ptr + 8192 = _ by omega) fun g lower upper a within before => by
          simp only [inodeLoad_congr disk]
          exact held g (by omega) upper a within before
      exact ⟨same.trans disk, rest⟩

/-- A listing set to what it is. -/
theorem listingSet_again (own : ino (inodeLoad s k) = k) (within : k < 65536) (rows : size (inodeLoad s k) = n)
    (inline : ∀ o < 96, inodeLoad s k (16 + o) = buf o)
    (pages : ∀ c < 4, 96 + 128 * c < entry * n → inodeLoad s (pnum (inodeLoad s k) c) = pageOf buf (96 + 128 * c))
    (leaves : ∀ g < 4, ∀ a < 64, 608 + 8192 * g + 128 * a < entry * n →
      inodeLoad s (exnum (inodeLoad s (exPnum (inodeLoad s k) g)) a) = pageOf buf (608 + 8192 * g + 128 * a)) :
    (listingSet entry buf s k n).disk = s.disk := by
  have small : n < 65536 := by
    rw [← rows]
    exact Bytes.get16_lt _ _
  have cut : (inodeLoad s k).take 128 = inodeLoad s k := by
    rw [inodeLoad_window within]
    exact Bytes.take_take
  have natural : ((n : Int)).toNat = n := Int.toNat_natCast n
  simp only [listingSet, rows, natural, ushort_nat small]
  generalize atX : inodeLoad s k = x at *
  have header : (setSize x n).copy 16 buf 0 96 = x := by
    funext o
    by_cases inside : 16 ≤ o ∧ o < 112
    · rw [Bytes.copy_apply_of_mem inside.1 (by omega), Nat.zero_add, ← inline _ (by omega)]
      congr 1
      omega
    · rw [Bytes.copy_apply_of_not_mem (by omega), setSize, ← rows, Sfs.size, Bytes.put16_get16]
  rw [header]
  obtain ⟨disk₁, bytes₁⟩ : (setPages buf (entry * n) (entry * n) s x 96 0 4).1.disk = s.disk ∧
      (setPages buf (entry * n) (entry * n) s x 96 0 4).2 = x :=
    setPages_again rfl (show 96 = 96 + 128 * 0 from rfl) fun c _ => pages c
  obtain ⟨disk₂, bytes₂⟩ :
      (setIndex buf (entry * n) (entry * n) (setPages buf (entry * n) (entry * n) s x 96 0 4).1 x 608 0 4).1.disk =
        (setPages buf (entry * n) (entry * n) s x 96 0 4).1.disk ∧
      (setIndex buf (entry * n) (entry * n) (setPages buf (entry * n) (entry * n) s x 96 0 4).1 x 608 0 4).2 = x :=
    setIndex_again rfl (show 608 = 608 + 8192 * 0 from rfl) fun g _ upper a within before => by
      simp only [inodeLoad_congr disk₁]
      exact leaves g upper a within before
  rw [bytes₁, bytes₂, own]
  generalize (setIndex buf (entry * n) (entry * n) (setPages buf (entry * n) (entry * n) s x 96 0 4).1 x 608 0 4).1 = t at *
  have disk := disk₂.trans disk₁
  exact (inodeDump_again within (by rw [inodeLoad_congr disk, atX, cut])).trans disk

/-- A leaf page is the part of the entries at its offset. -/
theorem page_of_content (filled : ∀ o, Filled ptrEnd o → content cell x o = buf o) (wants : Wants ptrEnd c)
    (leaf : ∀ o, 96 ≤ o → pagePtr c ≤ o → o < pagePtr c + 128 → leafOf o = c ∧ (o - 96) % 128 = o - pagePtr c)
    (past : 96 ≤ pagePtr c) (i : Nat) (within : i < 128) : cell (pageNo cell x c) i = buf (pagePtr c + i) := by
  obtain ⟨here, place⟩ := leaf (pagePtr c + i) (by omega) (by omega) (by omega)
  rw [← filled (pagePtr c + i) (Or.inr (by rwa [here])), content, if_neg (by omega), here, place, Nat.add_sub_cancel_left]

theorem page_first (filled : ∀ o, Filled ptrEnd o → content cell x o = buf o) (first : c < 4)
    (before : 96 + 128 * c < ptrEnd) (within : i < 128) : cell (pnum x c) i = buf (96 + 128 * c + i) := by
  have ptr := pagePtr_first first
  have page := page_of_content filled ((wants_first first).mpr before) (fun o past lower upper => by
    rw [ptr] at lower upper ⊢
    refine ⟨?_, by omega⟩
    rw [leafOf_first past (by omega)]
    omega) (by rw [ptr]; omega) i within
  rwa [ptr, pageNo_first first] at page

theorem page_leaf (filled : ∀ o, Filled ptrEnd o → content cell x o = buf o) (group : i < 4) (leaf : j < 64)
    (before : 608 + 8192 * i + 128 * j < ptrEnd) (within : n < 128) :
    cell (exnum (cell (exPnum x i)) j) n = buf (608 + 8192 * i + 128 * j + n) := by
  have ptr := pagePtr_leaf (i := i) leaf
  have page := page_of_content filled ((wants_leaf group leaf).mpr before) (fun o past lower upper => by
    rw [ptr] at lower upper ⊢
    refine ⟨?_, by omega⟩
    rw [leafOf_leaf (by omega)]
    congr 1 <;> omega) (by rw [ptr]; omega) n within
  rwa [ptr, pageNo_leaf leaf] at page

theorem inodeLoad_pageOf (within : q < 4096) (same : ∀ i < 128, s.slots.cell q i = buf (ptr + i)) :
    inodeLoad s q = pageOf buf ptr := by
  rw [← inodeLoad_slot within, inodeLoad_window (by omega)] at same
  rw [inodeLoad_window (by omega), pageOf, INODE_SIZE]
  refine Bytes.window_congr fun i inside => ?_
  rw [← same i inside, Bytes.window_apply_of_lt inside]

theorem fnodeListingSet_twice (marked : Marked L s.stores.pool) (live : k ∈ L) (file : isdir (s.stores.pool.cell k) = 0)
    (limit : n ≤ 8344) (run : fnodeListingSet s k n = s')
    (pops : Pops s.stores.pool (blknumSize * n) (endOf (s.stores.pool.cell k)) s') :
    (fnodeListingSet s' k n).disk = s'.disk := by
  have range := marked.node_range live
  have own := marked.own k live
  replace marked := marked.slots
  have cell : s.slots.cell k = s.stores.pool.cell k := slots_cell (by omega)
  rw [← cell] at file pops own
  have entry : entrySize (s.slots.cell k) = blknumSize := if_neg (not_not.mpr file)
  rw [fnodeListingSet_eq limit, ← entry] at run
  rw [← entry] at pops
  obtain ⟨paging, resized, ends, _, pages⟩ := marked.listingSet_spec live run (by omega) pops
  have loaded : inodeLoad s' k = s'.slots.cell k := inodeLoad_slot (by omega)
  have filled := resized.content
  rw [ends] at pages
  rw [entry] at filled pages
  have f : s'.f = s.f := by rw [paging.eq]
  rw [fnodeListingSet_eq limit, f]
  refine listingSet_again ?_ (by omega) ?_ ?_ ?_ ?_ <;> rw [loaded]
  · rw [resized.ino_eq, own]
  · exact resized.size
  · intro o inline
    have byte := filled o (Or.inl inline)
    rwa [content, if_pos inline] at byte
  · intro c first before
    have upper := (pages c ((wants_first first).mpr before)).1
    rw [pageNo_first first] at upper
    exact inodeLoad_pageOf (by omega) fun i within => page_first filled first before within
  · intro g group a leaf before
    have wants := (wants_leaf group leaf).mpr before
    have upper := (pages _ wants).1
    have index := (pages _ (wants.index_of_leaf group leaf)).1
    rw [pageNo_leaf leaf] at upper
    rw [pageNo_index] at index
    rw [inodeLoad_slot (show exPnum (s'.slots.cell k) g < 4096 by omega)]
    exact inodeLoad_pageOf (by omega) fun i within => page_leaf filled group leaf before within

/-- The second of two equal calls of `fnode_listing_set` leaves the disk as it is. -/
theorem fnodeListingSet_again (marked : Marked L s.stores.pool) (live : k ∈ L) (file : isdir (s.stores.pool.cell k) = 0)
    (limit : n ≤ FENTRY_MAX_SIZE)
    (pops : Pops s.stores.pool (blknumSize * n) (endOf (s.stores.pool.cell k)) (fnodeListingSet s k n)) :
    (fnodeListingSet (fnodeListingSet s k n) k n).disk = (fnodeListingSet s k n).disk :=
  fnodeListingSet_twice marked live file (by simpa only [FENTRY_MAX_SIZE] using limit) rfl pops

/-- The empty file `/a` is given 30 blocks twice. -/
theorem fnodeListingSet_again_first : ∃ k, FirstFile firstState k [97] ∧
    (fnodeListingSet (fnodeListingSet firstState k 30) k 30).disk = (fnodeListingSet firstState k 30).disk := by
  obtain ⟨k, first⟩ := firstState_firstFile
  have marked := first.good.owned.toMarked
  have spare := first.spare
  have pages := pageCount_le (blknumSize * 30) (endOf (firstState.stores.pool.cell k))
  exact ⟨k, first, fnodeListingSet_again (n := 30) marked FirstFile.live first.file (by decide) (Or.inr (by omega))⟩

end Sfs
