import Sfs.Fresh
import Sfs.Fuse

namespace Sfs

variable {s s' : State} {a b i n : Nat} {x : Bytes}

theorem blockWrite_superBlockBuf (s : State) (b : Int) (x : Bytes) :
    (blockWrite s b x).superBlockBuf = s.superBlockBuf := by
  unfold blockWrite
  split <;> rfl

theorem blockRead_blockWrite_self (within : b < 4194304) : blockRead (blockWrite s b x) b = x.take 512 := by
  rw [blockWrite_nat _ _ within, blockRead_nat _ within]
  dsimp only
  rw [Bytes.window_copy_self]
  simp only [Bytes.window, Nat.zero_add]

theorem blockRead_blockWrite_of_ne (within : b < 4194304) (within' : a < 4194304) (ne : a ≠ b) :
    blockRead (blockWrite s b x) a = blockRead s a := by
  rw [blockWrite_nat _ _ within, blockRead_nat _ within', blockRead_nat _ within']
  exact Bytes.window_copy_of_disjoint (by omega)

/-- The superblock is written into block 0 only. -/
theorem blockRead_superblockWrite (positive : 0 < a) (within : a < 4194304) :
    blockRead (superblockWrite s) a = blockRead s a := by
  have zero : (0 : Int) = ((0 : Nat) : Int) := rfl
  simp only [superblockWrite, zero]
  exact blockRead_blockWrite_of_ne (by omega) within (by omega)

/-- The state while free blocks are linked or unlinked, from `b` on. -/
structure Linked (s : State) (b : Nat) : Prop where
  head : freeBlockHead s.stores.sup = b
  count : freeBlockSize s.stores.sup = (32768 - b : Nat)
  next : ∀ i, b ≤ i → i < 32768 → freeBlockNext (blockRead s i) = if i + 1 < 32768 then (i + 1 : Int) else -1
  synced : Synced s
  errno : s.errno = 0
  trace : ∀ c ∈ s.trace, ∃ r > 0, c = .freeBlockPop r

/-- The loop links blocks `i` to `i + n - 1`. -/
structure LinkedUp (s s' : State) (i n : Nat) : Prop where
  next : ∀ j, i ≤ j → j < i + n → freeBlockNext (blockRead s' j) = j + 1
  frame : ∀ j : Nat, j < 4194304 → j < i ∨ i + n ≤ j → blockRead s' j = blockRead s j
  eq : s' = { s with disk := s'.disk, blockBuf := s'.blockBuf }

theorem freeBlockNext_putInt {v : Int} : freeBlockNext ((putInt x 0 v).take 512) = int32 v := by
  rw [freeBlockNext, getInt_take (by omega), getInt_putInt_self]

theorem freeBlockInitLoop_spec (within : i + n ≤ 32768) : LinkedUp s (freeBlockInitLoop s i n) i n := by
  induction n generalizing s i with
  | zero => exact ⟨fun j lower upper => absurd upper (by omega), fun _ _ _ => rfl, rfl⟩
  | succ n ih =>
    rw [freeBlockInitLoop, List.range'_succ, List.foldl_cons, ← freeBlockInitLoop, freeBlockLink]
    generalize fullIs : putInt s.blockBuf 0 ((i : Int) + 1) = full
    have link : freeBlockNext (full.take 512) = i + 1 := by
      rw [← fullIs, freeBlockNext_putInt, int32_of_mem (by omega) (by omega)]
    have step : freeblockWrite { s with blockBuf := full } i = blockWrite { s with blockBuf := full } i full := rfl
    rw [step]
    have written := blockWrite_eq (s := { s with blockBuf := full }) (b := i) (x := full) (by omega)
    have self := blockRead_blockWrite_self (s := { s with blockBuf := full }) (b := i) (x := full) (by omega)
    have other := fun (a : Nat) within' ne => blockRead_blockWrite_of_ne (s := { s with blockBuf := full })
      (b := i) (x := full) (a := a) (by omega) within' ne
    have start : ∀ a : Nat, blockRead { s with blockBuf := full } a = blockRead s a := fun _ => rfl
    generalize blockWrite { s with blockBuf := full } i full = t at *
    obtain ⟨next, frame, eq⟩ := ih (s := t) (i := i + 1) (by omega)
    refine ⟨fun j lower upper => ?_, fun j inside out => ?_, ?_⟩
    · by_cases here : j = i
      · subst here
        rw [frame j (by omega) (by omega), self, link]
      · exact next j (by omega) (by omega)
    · rw [frame j inside (by omega), other j inside (by omega), start]
    · rw [eq, written]

theorem sup_eq_of_block_zero (same : blockRead s' (0 : Nat) = blockRead s (0 : Nat)) :
    s'.stores.sup = s.stores.sup := by
  have zero : ((0 : Nat) : Int) = 0 := rfl
  rw [zero] at same
  rw [← take_blockRead_zero, ← take_blockRead_zero, same]

/-- The list that `free_block_init` sets up, whatever was on the disk. -/
theorem freeBlockInit_spec (s : State) : freeBlockHead (freeBlockInit s).stores.sup = 1 ∧
    freeBlockSize (freeBlockInit s).stores.sup = 32767 ∧
    (∀ i : Nat, 1 ≤ i → i < 32768 → freeBlockNext (blockRead (freeBlockInit s) i) =
      if i + 1 < 32768 then (i + 1 : Int) else -1) ∧
    Synced (freeBlockInit s) ∧ (freeBlockInit s).errno = s.errno ∧ (freeBlockInit s).trace = s.trace := by
  rw [freeBlockInit]
  obtain ⟨m, value⟩ : ∃ m, m = 32766 := ⟨_, rfl⟩
  have rounds : MAX_BLOCK_NUM - 2 = m := by rw [value, MAX_BLOCK_NUM]
  have final : (MAX_BLOCK_NUM : Int) - 1 = (m + 1 : Nat) := by
    rw [MAX_BLOCK_NUM]
    omega
  generalize supIs : putInt (putInt Bytes.zero 0 1) 4 ((MAX_BLOCK_NUM : Int) - 1) = sup
  have atHead : freeBlockHead (sup.take 128) = 1 := by
    rw [freeBlockHead, getInt_take (by omega), ← supIs, getInt_putInt_of_ne (by omega), getInt_putInt_self]
    rfl
  have atSize : freeBlockSize (sup.take 128) = 32767 := by
    rw [freeBlockSize, getInt_take (by omega), ← supIs, getInt_putInt_self]
    rfl
  have stores₀ := stores_superblockWrite (s := { s with blockBuf := Bytes.zero, superBlockBuf := sup })
  have trace₀ := superblockWrite_trace (s := { s with blockBuf := Bytes.zero, superBlockBuf := sup })
  have errno₀ := superblockWrite_errno (s := { s with blockBuf := Bytes.zero, superBlockBuf := sup })
  have buf₀ := superblockWrite_superBlockBuf (s := { s with blockBuf := Bytes.zero, superBlockBuf := sup })
  generalize superblockWrite { s with blockBuf := Bytes.zero, superBlockBuf := sup } = s₀ at *
  rw [rounds, final]
  obtain ⟨next, frame, eq⟩ := freeBlockInitLoop_spec (s := s₀) (i := 1) (n := m) (by omega)
  generalize freeBlockInitLoop s₀ 1 m = s₁ at *
  generalize lastIs : putInt s₁.blockBuf 0 (-1) = last
  have link : freeBlockNext (last.take 512) = -1 := by
    rw [← lastIs, freeBlockNext_putInt]
    rfl
  have step : freeblockWrite { s₁ with blockBuf := last } (m + 1 : Nat) =
    blockWrite { s₁ with blockBuf := last } (m + 1 : Nat) last := rfl
  have written := blockWrite_eq (s := { s₁ with blockBuf := last }) (b := m + 1) (x := last) (by omega)
  have self := blockRead_blockWrite_self (s := { s₁ with blockBuf := last }) (b := m + 1) (x := last) (by omega)
  have other := fun (a : Nat) within' ne => blockRead_blockWrite_of_ne (s := { s₁ with blockBuf := last })
    (b := m + 1) (x := last) (a := a) (by omega) within' ne
  have start : ∀ a : Nat, blockRead { s₁ with blockBuf := last } a = blockRead s₁ a := fun _ => rfl
  rw [step]
  generalize blockWrite { s₁ with blockBuf := last } (m + 1 : Nat) last = s₂ at *
  have sup₂ : s₂.stores.sup = sup.take 128 := by
    have block : blockRead s₂ (0 : Nat) = blockRead s₀ (0 : Nat) := by
      rw [other 0 (by omega) (by omega), start, frame 0 (by omega) (by omega)]
    rw [sup_eq_of_block_zero block, stores₀, Stores.setSup_sup]
  refine ⟨by rw [sup₂, atHead], by rw [sup₂, atSize], fun i lower upper => ?_, ?_, ?_, ?_⟩
  · by_cases here : i = m + 1
    · rw [here, self, link, if_neg (by omega)]
    · rw [if_pos (by omega), other i (by omega) here, start, next i lower (by omega)]
  · rw [Synced, sup₂, written, eq, buf₀]
  · rw [written, eq, errno₀]
  · rw [written, eq, trace₀]

theorem freeBlockInit_linked (disk : Bytes) : Linked (freeBlockInit (boot disk)) 1 := by
  obtain ⟨head, count, next, synced, errno, trace⟩ := freeBlockInit_spec (boot disk)
  refine ⟨by rw [head]; rfl, by rw [count]; rfl, next, synced, errno, fun c member => ?_⟩
  rw [trace] at member
  exact absurd member List.not_mem_nil

/-- A pop while blocks 1 to 1024 are still on the list. -/
theorem Linked.pop (linked : Linked s b) (positive : 0 < b) (within : b + 1 < 32768) :
    Linked (freeBlockPop s).2 (b + 1) := by
  obtain ⟨head, count, next, synced, errno, trace⟩ := linked
  have isNext := next b le_rfl (by omega)
  rw [if_pos within] at isNext
  simp only [freeBlockPop, superblockRead_eq, head, show (b : Int) > 0 by omega, if_true]
  have start : ∀ a : Nat, blockRead { s with blockBuf := blockRead s 0, superBlockBuf := s.stores.sup } a =
    blockRead s a := fun _ => rfl
  generalize supIs : supWith s.stores.sup (freeBlockNext (blockRead s b)) (freeBlockSize s.stores.sup - 1) = sup
  have unlinked : freeBlockUnlink { s with blockBuf := blockRead s 0, superBlockBuf := s.stores.sup } b =
      superblockWrite { s with blockBuf := blockRead s b, superBlockBuf := sup } := by
    rw [freeBlockUnlink_eq, start, supIs]
  have stores := stores_superblockWrite (s := { s with blockBuf := blockRead s b, superBlockBuf := sup })
  have synced' := superblockWrite_synced (s := { s with blockBuf := blockRead s b, superBlockBuf := sup })
  have trace' := superblockWrite_trace (s := { s with blockBuf := blockRead s b, superBlockBuf := sup })
  have errno' := superblockWrite_errno (s := { s with blockBuf := blockRead s b, superBlockBuf := sup })
  have frame := fun (a : Nat) positive within => blockRead_superblockWrite
    (s := { s with blockBuf := blockRead s b, superBlockBuf := sup }) (a := a) positive within
  have start' : ∀ a : Nat, blockRead { s with blockBuf := blockRead s b, superBlockBuf := sup } a =
    blockRead s a := fun _ => rfl
  rw [unlinked]
  generalize superblockWrite { s with blockBuf := blockRead s b, superBlockBuf := sup } = t at *
  have sup' : t.stores.sup = sup.take 128 := by rw [stores, Stores.setSup_sup]
  refine ⟨?_, ?_, fun i lower upper => ?_, synced', errno'.trans errno, fun c member => ?_⟩
  · rw [stores_note, sup', ← supIs, head_supWith, isNext, int32_of_mem (by omega) (by omega)]
    rfl
  · rw [stores_note, sup', ← supIs, size_supWith, count, int32_of_mem (by omega) (by omega)]
    omega
  · have same : blockRead (t.note (.freeBlockPop b)) i = blockRead s i :=
      (frame i (by omega) (by omega)).trans (start' i)
    rw [same, next i (by omega) upper]
  · rcases List.mem_cons.mp member with rfl | earlier
    · exact ⟨b, by omega, rfl⟩
    · exact trace c (trace' ▸ earlier)

theorem Linked.pops (linked : Linked s b) (positive : 0 < b) (within : b + n < 32768) :
    Linked (inodeInitLoop s n) (b + n) := by
  induction n generalizing s b with
  | zero => exact linked
  | succ n ih =>
    have step := ih (linked.pop positive (by omega)) (by omega) (by omega)
    rw [inodeInitLoop, Function.iterate_succ_apply, ← inodeInitLoop]
    rwa [show b + (n + 1) = b + 1 + n by omega]

/-- The bitmap of `inode_init`: the first three inodes are in use. -/
theorem bitAt_initial (q : Nat) : bitAt (Function.update (fun _ => 0xff) 0 0x1f) q = decide (3 ≤ q) := by
  have first : ∀ j : Fin 8, bitSet 0x1f j = decide (3 ≤ j.val) := by decide
  have rest : ∀ j : Fin 8, bitSet 0xff j = true := by decide
  rw [bitAt]
  by_cases zero : q / 8 = 0
  · rw [zero, Function.update_self, first ⟨q % 8, Nat.mod_lt _ (by omega)⟩]
    simp only
    congr 1
    rw [eq_iff_iff]
    omega
  · rw [Function.update_of_ne zero, rest ⟨q % 8, Nat.mod_lt _ (by omega)⟩]
    simp only [true_eq_decide_iff]
    omega

/-- The state that `sfs_init` sets up. -/
structure Initial (s : State) : Prop where
  root : s.stores.pool.cell 2 = (dnodeImage 2 2).take 128
  free : ∀ q, s.stores.pool.free q = decide (3 ≤ q ∧ q < 4096)
  list : FreeList s.stores (List.range' 1025 31743)
  count : freeBlockSize s.stores.sup = 31743
  synced : Synced s
  errno : s.errno = 0
  trace : ∀ c ∈ s.trace, c = .inodeDump 2 ∨ ∃ r > 0, c = .freeBlockPop r

theorem Linked.list (linked : Linked s 1025) : FreeList s.stores (List.range' 1025 31743) := by
  obtain ⟨head, _, next, _⟩ := linked
  have link : ∀ i, 1025 ≤ i → i < 32768 → freeBlockNext (s.stores.data i) =
      if i + 1 < 32768 then (i + 1 : Int) else -1 := fun i lower upper => by
    rw [← blockRead_data lower (by omega), next i lower upper]
  refine ⟨?_, List.nodup_range', fun b member => ?_⟩
  · have chain := Chain.ofRange (fun b => freeBlockNext (s.stores.data b)) 1025 31743
      (fun b lower upper => by rw [link b lower (by omega), if_pos (by omega)])
      (fun _ => by rw [link _ (by omega) (by omega), if_neg (by omega)])
    rw [if_neg (by omega)] at chain
    rw [head]
    exact chain
  · have := List.mem_range'_1.mp member
    omega

theorem sfsInit_initial (disk : Bytes) : Initial (sfsInit disk) := by
  rw [sfsInit, inodeInit]
  have boundary : INODE_BLK_SIZE - 1 = 1023 := rfl
  have linked := ((freeBlockInit_linked disk).pops (n := 1023) (by omega) (by omega)).pop (by omega) (by omega)
  rw [show 1 + 1023 + 1 = 1025 by omega] at linked
  rw [boundary]
  generalize (freeBlockPop (inodeInitLoop (freeBlockInit (boot disk)) 1023)).2 = s at linked
  generalize bitmapIs : (Function.update (fun _ => 0xff) 0 0x1f : Bytes) = b
  have stores := stores_bitmapWrite (s := s) b
  have buf := blockWrite_superBlockBuf s INODE_BLK_SIZE b
  have errno := blockWrite_errno s INODE_BLK_SIZE b
  have traceT := blockWrite_trace s INODE_BLK_SIZE b
  generalize blockWrite s INODE_BLK_SIZE b = t at *
  rw [dnodeInit_eq]
  generalize imageIs : dnodeImage 2 2 = x
  have quiet := quiet_inodeDump (s := t) (k := 2) (x := x) (by omega) (by omega)
  have dumped := inodeDump_eq (s := t) (k := 2) (x := x) (by omega)
  have stores' := stores_inodeDump (s := t) (k := 2) (x := x) (by omega) (by omega)
  generalize inodeDump t (2 : Nat) x = s' at *
  have trace : s'.trace = .inodeDump 2 :: t.trace := by rw [dumped]; rfl
  have sup : s'.stores.sup = s.stores.sup := by rw [stores', Stores.setPool_sup, stores, Stores.setPool_sup]
  have data : s'.stores.data = s.stores.data := by rw [stores', Stores.setPool_data, stores, Stores.setPool_data]
  refine ⟨by rw [stores', Stores.setPool_pool, Pool.write_cell_self, imageIs], fun q => ?_,
    linked.list.congr sup fun b _ => by rw [data], ?_, quiet.synced ?_ ?_, ?_, fun c member => ?_⟩
  · rw [stores', Stores.setPool_pool, Pool.write_free, stores, Stores.setPool_pool]
    dsimp only
    by_cases inside : q < 4096
    · rw [bitAt_take inside, ← bitmapIs, bitAt_initial]
      simp [inside]
    · simp [inside]
  · rw [sup, linked.count]
    omega
  · rw [Synced, stores, Stores.setPool_sup, buf]
    exact linked.synced
  · rw [stores', Stores.setPool_sup]
  · rw [quiet.errno_eq, errno, linked.errno]
  · rw [trace] at member
    rcases List.mem_cons.mp member with rfl | earlier
    · exact Or.inl rfl
    · rw [traceT] at earlier
      exact Or.inr (linked.trace c earlier)

end Sfs
