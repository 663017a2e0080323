import Sfs.Lib.Table
import Sfs.Quiet

namespace Sfs

/-- The first `n` entries of a buffer. -/
def rowsOf (d : Bytes) (n : Nat) : Table (List UInt8) Nat :=
  ⟨n, fun i => Bytes.chars d (diEntSize * i) 14, fun i => d.get16 (diEntSize * i + 14)⟩

variable {s s' : State} {n a b i r : Nat} {k : Int} {tail d d' item filename : Bytes} {name : List UInt8}

theorem rowsOf_congr (same : ∀ j < 16, d' (diEntSize * i + j) = d (diEntSize * r + j)) :
    (rowsOf d' a).key i = (rowsOf d b).key r ∧ (rowsOf d' a).val i = (rowsOf d b).val r :=
  ⟨Bytes.chars_congr fun j hj => same j (by omega), Bytes.get16_congr (same 14 (by omega)) (same 15 (by omega))⟩

theorem rowsOf_pushed (d item : Bytes) (n : Nat) : Table.Pushed (rowsOf d n)
    (rowsOf (d.copy (diEntSize * n) item 0 diEntSize) (n + 1)) (Bytes.chars item 0 14) (item.get16 14) := by
  have last : ∀ j < 16, (d.copy (diEntSize * n) item 0 diEntSize) (diEntSize * n + j) = item j := fun j hj => by
    rw [Bytes.copy_apply_of_mem (by omega) (by simp only [diEntSize]; omega), Nat.add_sub_cancel_left, Nat.zero_add]
  refine ⟨rfl, fun i hi => rowsOf_congr fun j hj => ?_, ?_, ?_⟩
  · simp only [rowsOf] at hi
    rw [Bytes.copy_apply_of_not_mem (by simp only [diEntSize]; omega)]
  · exact Bytes.chars_congr fun j hj => by rw [Nat.zero_add]; exact last j (by omega)
  · exact Bytes.get16_congr (last 14 (by omega)) (last 15 (by omega))

theorem rowsOf_dropped (d : Bytes) (n r : Nat) : Table.Dropped (rowsOf d n)
    (rowsOf (d.copy (diEntSize * r) (diEnt d (n - 1)) 0 diEntSize) (n - 1)) r := by
  refine ⟨rfl, fun i hi => rowsOf_congr fun j hj => ?_⟩
  have rows : (rowsOf d n).rows = n := rfl
  rw [rows]
  split
  next here =>
    subst here
    rw [Bytes.copy_apply_of_mem (by omega) (by simp only [diEntSize]; omega), Nat.add_sub_cancel_left,
      Nat.zero_add, diEnt, Bytes.window_apply_of_lt (by simp only [diEntSize]; omega)]
  next => rw [Bytes.copy_apply_of_not_mem (by simp only [diEntSize]; omega)]

/-- The comparison of 13 characters decides whether an entry has the name. -/
theorem strncmpEq_entry (fits : (Bytes.chars d a 14).length ≤ 13) :
    Bytes.strncmpEq d a filename 0 13 = decide (Bytes.chars d a 14 = Bytes.chars filename 0 13) := by
  have prefix13 : Bytes.chars d a 13 = Bytes.chars d a 14 := by
    rw [← Bytes.take_chars (by omega : 13 ≤ 14), List.take_of_length_le fits]
  rw [Bool.eq_iff_iff, Bytes.strncmpEq_iff, prefix13, decide_eq_true_iff]

theorem chars_name (clean : 0 ∉ name) (short : name.length ≤ 13) : Bytes.chars (Bytes.cstr name tail) 0 13 = name := by
  rw [Bytes.chars_cstr clean, List.take_of_length_le short]

/-- The listing functions for files and directories leave the other's buffer and their own. -/
theorem sameD_steps : Steps fun s s' => s'.d = s.d where
  refl _ := rfl
  trans first second := second.trans first
  dump s inum x := by
    unfold inodeDump blockWrite
    split <;> [rfl; split <;> rfl]
  pop s := by
    unfold freeInodePop blockWrite
    split <;> [split <;> rfl; rfl]
  push s q := by
    unfold freeInodePush blockWrite
    dsimp only
    split <;> [rfl; split <;> rfl]

theorem inodeDump_d (s : State) (inum : Int) (x : Bytes) : (inodeDump s inum x).d = s.d := sameD_steps.dump s inum x

theorem dnodeListingSet_d (s : State) (inum : Nat) (newsize : Int) : (dnodeListingSet s inum newsize).d = s.d := by
  rw [dnodeListingSet]
  split
  · exact sameD_steps.listingSet
  · exact sameD_steps.listingSet

theorem dnodeRemoveLoop_add {size : Nat} : dnodeRemoveLoop s k filename size i (a + b) =
    dnodeRemoveLoop (dnodeRemoveLoop s k filename size i a) k filename size (i + a) b := by
  induction a generalizing s i with
  | zero => rw [Nat.zero_add]; rfl
  | succ a ih =>
    rw [Nat.succ_add, dnodeRemoveLoop, dnodeRemoveLoop, ih]
    rw [show i + 1 + a = i + (a + 1) by omega]

/-- Entries with other names are passed over. -/
theorem dnodeRemoveLoop_miss {size : Nat} (within : i + n ≤ 2086)
    (miss : ∀ j, i ≤ j → j < i + n → Bytes.strncmpEq s.d (diEntSize * j) filename 0 13 = false) :
    dnodeRemoveLoop s k filename size i n = s := by
  induction n generalizing i with
  | zero => rfl
  | succ n ih =>
    have inside : decide (i ≥ DENTRY_MAX_SIZE) = false := by simp only [DENTRY_MAX_SIZE]; simp; omega
    rw [dnodeRemoveLoop, inside, fault_false]
    simp only [miss i le_rfl (by omega), Bool.false_eq_true, if_false]
    exact ih (by omega) fun j lower upper => miss j (by omega) (by omega)

/-- Directory `k` is cut by one entry, with the last one in place of entry `r`. -/
def removeEntry (s : State) (k : Int) (size r : Nat) : State :=
  let s := dnodeListingSet { s with d := s.d.copy (diEntSize * r) (diEnt s.d (size - 1)) 0 diEntSize } (ushort k) (size - 1)
  inodeDump s k (setNlink (inodeLoad s k) (ushort ((nlink (inodeLoad s k) : Int) - 1)))

theorem removeEntry_d {size : Nat} : (removeEntry s k size r).d =
    s.d.copy (diEntSize * r) (diEnt s.d (size - 1)) 0 diEntSize := by
  rw [removeEntry, inodeDump_d, dnodeListingSet_d]

section

variable (fits : n ≤ 2086) (named : ∀ i < n, ((rowsOf s.d n).key i).length ≤ 13)

include fits named

/-- The loop of `dnode_remove` cuts the directory once, if at all. -/
theorem dnodeRemoveLoop_none (absent : (rowsOf s.d n).find (Bytes.chars filename 0 13) = none) :
    dnodeRemoveLoop s k filename n 0 n = s := by
  refine dnodeRemoveLoop_miss (by omega) fun j _ upper => ?_
  rw [Nat.zero_add] at upper
  rw [strncmpEq_entry (named j upper)]
  exact decide_eq_false (Table.find_none.mp absent j upper)

theorem dnodeRemoveLoop_hit (distinct : (rowsOf s.d n).Distinct) (within : r < n)
    (hit : (rowsOf s.d n).key r = Bytes.chars filename 0 13) :
    dnodeRemoveLoop s k filename n 0 n = removeEntry s k n r := by
  obtain ⟨rest, split⟩ : ∃ rest, n = r + (rest + 1) := ⟨n - r - 1, by omega⟩
  have inside : decide (r ≥ DENTRY_MAX_SIZE) = false := by simp only [DENTRY_MAX_SIZE]; simp; omega
  have compare : ∀ j < n, Bytes.strncmpEq s.d (diEntSize * j) filename 0 13 = decide (j = r) := by
    intro j hj
    rw [strncmpEq_entry (named j hj)]
    exact decide_eq_decide.mpr ⟨fun same => distinct j hj r within (same.trans hit.symm), fun same => same ▸ hit⟩
  have here : Bytes.strncmpEq s.d (diEntSize * r) filename 0 13 = true := by
    rw [compare r within]
    exact decide_eq_true rfl
  have before : dnodeRemoveLoop s k filename n 0 r = s :=
    dnodeRemoveLoop_miss (by omega) fun j _ upper => by
      rw [compare j (by omega)]
      exact decide_eq_false (by omega)
  -- the entries behind the hit are still those of the old directory
  have after : dnodeRemoveLoop (removeEntry s k n r) k filename n (r + 1) rest = removeEntry s k n r := by
    refine dnodeRemoveLoop_miss (by omega) fun j lower upper => ?_
    have later : Bytes.strncmpEq (removeEntry s k n r).d (diEntSize * j) filename 0 13 =
        Bytes.strncmpEq s.d (diEntSize * j) filename 0 13 := by
      rw [Bool.eq_iff_iff, Bytes.strncmpEq_iff, Bytes.strncmpEq_iff]
      refine Eq.congr_left (Bytes.chars_congr fun o ho => ?_)
      rw [removeEntry_d, Bytes.copy_apply_of_not_mem (by simp only [diEntSize]; omega)]
    rw [later, compare j (by omega)]
    exact decide_eq_false (by omega)
  calc dnodeRemoveLoop s k filename n 0 n = dnodeRemoveLoop s k filename n 0 (r + (rest + 1)) := by rw [← split]
    _ = dnodeRemoveLoop s k filename n r (rest + 1) := by rw [dnodeRemoveLoop_add, before, Nat.zero_add]
    _ = dnodeRemoveLoop (removeEntry s k n r) k filename n (r + 1) rest := by
        rw [dnodeRemoveLoop, inside, fault_false]
        simp only [here, if_true]
        rfl
    _ = removeEntry s k n r := after

end

end Sfs
