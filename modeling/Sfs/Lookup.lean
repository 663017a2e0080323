import Sfs.Lib.Walk
import Sfs.Path
import Sfs.Remove

namespace Sfs

/-- The components of a path. -/
abbrev Path := List (List UInt8)

def joinSlash : Path → List UInt8
  | [] => []
  | [c] => c
  | c :: cs => c ++ slash :: joinSlash cs

/-- The characters of an absolute path. -/
def render (p : Path) : CPath := slash :: joinSlash p

/-- `s'` differs from `s` in the listing buffers. -/
def Glance (s s' : State) : Prop := s' = { s with d := s'.d, f := s'.f, ub := s'.ub }

/-- The result of a lookup as an inode number. -/
def toInum : Option Nat → Int
  | some k => k
  | none => -1

/-- A component the lookups treat like any other name. -/
structure Plain (c : List UInt8) : Prop where
  nonempty : c ≠ []
  noNul : 0 ∉ c
  noSlash : slash ∉ c
  notDot : c ≠ [46]
  notDotdot : c ≠ [46, 46]

variable {L : Set Nat} {s s' s'' : State} {p p' : Pool Bytes} {k m n i : Nat} {c : List UInt8} {cs : Path}
  {d : Bytes}

namespace Glance

theorem refl (s : State) : Glance s s := rfl

theorem trans (first : Glance s s') (second : Glance s' s'') : Glance s s'' := by
  rw [Glance, second, first]

theorem stores_eq (glance : Glance s s') : s'.stores = s.stores := stores_congr (by rw [glance])

theorem traced (glance : Glance s s') : Traced s s' := .of_eq (by rw [glance])

theorem errno_eq (glance : Glance s s') : s'.errno = s.errno := by rw [glance]

theorem synced (glance : Glance s s') (synced : Synced s) : Synced s' := by
  have buf : s'.superBlockBuf = s.superBlockBuf := by rw [glance]
  rw [Synced, buf, glance.stores_eq]
  exact synced

theorem of_fault (bad : Bool) : Glance s (s.fault bad) := rfl

end Glance

theorem diEntInum_eq : diEntInum (diEnt d i) = d.get16 (diEntSize * i + 14) :=
  Bytes.get16_window (by simp only [diEntSize]; omega)

/-- The loop over the entries is a search in the table they make up. -/
theorem elemLoop_eq {t : Table (List UInt8) Nat} {tail : Bytes} (clean : 0 ∉ c)
    (key : ∀ j < i + n, Bytes.chars d (diEntSize * j) 14 = t.key j)
    (val : ∀ j < i + n, d.get16 (diEntSize * j + 14) = t.val j) :
    elemLoop d (Bytes.cstr c tail) i n = toInum (t.findFrom (c.take 14) i n) := by
  induction n generalizing i with
  | zero => rfl
  | succ n ih =>
    have compare : Bytes.strncmpEq (Bytes.cstr c tail) 0 d (diEntSize * i) 14 =
        decide (t.key i = c.take 14) := by
      rw [Bool.eq_iff_iff, Bytes.strncmpEq_iff, Bytes.chars_cstr clean, key i (by omega), decide_eq_true_iff]
      exact eq_comm
    rw [elemLoop, Table.findFrom, compare, diEntInum_eq, val i (by omega)]
    simp only [decide_eq_true_iff]
    split
    · rfl
    · exact ih (fun j hj => key j (by omega)) (fun j hj => val j (by omega))

/-- A name longer than those stored is not found, like its first 14 bytes. -/
theorem DirOk.find_take (ok : DirOk p k) : (dirTable p k).find (c.take 14) = (dirTable p k).find c := by
  by_cases short : c.length ≤ 14
  · rw [List.take_of_length_le short]
  · have absent : ∀ x : List UInt8, 13 < x.length → (dirTable p k).find x = none := fun x long => by
      refine Table.find_none.mpr fun j hj hit => ?_
      have name : entName p k j = x := hit
      have := (ok.named j hj).2
      rw [name] at this
      omega
    rw [absent c (by omega), absent _ (by rw [List.length_take]; omega)]

/-- Looking up one component in a directory. -/
theorem pathToInumElem_spec (owned : Owned L s.stores.pool) (live : k ∈ L) (ok : DirOk s.stores.pool k)
    (clean : 0 ∉ c) (notDot : c ≠ [46]) :
    ∃ s', pathToInumElem s c k = (toInum ((dirTable s.stores.pool k).find c), s') ∧ Glance s s' ∧ s'.ub = s.ub := by
  obtain ⟨d, listed, bytes⟩ := owned.dnodeListing_spec live ok.dir
  have fits := owned.fits k live
  have range := owned.node_range live
  rw [endOf_dir ok.dir] at bytes fits
  have inside : decide (size (s.stores.pool.cell k) > DENTRY_MAX_SIZE) = false := by
    simp only [DENTRY_MAX_SIZE, diEntSize] at fits ⊢
    simp
    omega
  rw [pathToInumElem, if_neg (by omega), if_neg notDot]
  simp only [listed, inside, Bool.false_and, fault_false]
  refine ⟨{ s with d }, ?_, rfl, rfl⟩
  rw [elemLoop_eq (t := dirTable s.stores.pool k) clean, ← ok.find_take]
  · rfl
  · exact fun j hj => name_congr bytes fits (by omega)
  · exact fun j hj => inum_congr bytes fits (by omega)

end Sfs
