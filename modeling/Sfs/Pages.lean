import Mathlib.Data.Finset.Card
import Sfs.Listing

namespace Sfs

/-! The pages of a node, 264 at most: codes 0 to 3 are the level-1 leaf pages,
and code `4 + 65 * i` is index page `i`, followed by its 64 leaf pages. -/

def indexCode (i : Nat) : Nat := 4 + 65 * i

def leafCode (i j : Nat) : Nat := 5 + 65 * i + j

/-- The buffer offset of the first entry that needs page `c`. -/
def pagePtr (c : Nat) : Nat :=
  if c < 4 then 96 + 128 * c else 608 + 8192 * ((c - 4) / 65) + 128 * ((c - 4) % 65 - 1)

/-- The number stored for page `c` of the node with inode `x`. -/
def pageNo (cell : Nat → Bytes) (x : Bytes) (c : Nat) : Nat :=
  if c < 4 then pnum x c
  else if (c - 4) % 65 = 0 then exPnum x ((c - 4) / 65)
  else exnum (cell (exPnum x ((c - 4) / 65))) ((c - 4) % 65 - 1)

/-- Page `c` is in use by a listing that ends at offset `ptrEnd`. -/
def Wants (ptrEnd c : Nat) : Prop := c < 264 ∧ pagePtr c < ptrEnd

instance (ptrEnd : Nat) : DecidablePred (Wants ptrEnd) := fun _ => inferInstanceAs (Decidable (_ ∧ _))

/-- Page `c` is released when the end moves from `cacheEnd` to `ptrEnd`. A
leaf page of an index page that stays is not. -/
def Freed (ptrEnd cacheEnd c : Nat) : Prop :=
  Wants cacheEnd c ∧ ¬ Wants ptrEnd c ∧ (4 ≤ c → ptrEnd ≤ 608 + 8192 * ((c - 4) / 65))

/-- The number of pages that must be acquired. -/
def pageCount (ptrEnd cacheEnd : Nat) : Nat :=
  ((Finset.range 264).filter fun c => Wants ptrEnd c ∧ ¬ Wants cacheEnd c).card

variable {cell : Nat → Bytes} {x : Bytes} {i j c ptrEnd cacheEnd : Nat}

theorem pagePtr_first (within : c < 4) : pagePtr c = 96 + 128 * c := if_pos within

theorem indexCode_sub : indexCode i - 4 = 65 * i := by simp [indexCode]

theorem leafCode_sub : leafCode i j - 4 = 65 * i + (j + 1) := by simp only [leafCode]; omega

theorem not_indexCode_lt : ¬ indexCode i < 4 := by simp [indexCode]

theorem not_leafCode_lt : ¬ leafCode i j < 4 := by simp only [leafCode]; omega

theorem pagePtr_index : pagePtr (indexCode i) = 608 + 8192 * i := by
  rw [pagePtr, if_neg not_indexCode_lt, indexCode_sub]
  omega

theorem pagePtr_leaf (within : j < 64) : pagePtr (leafCode i j) = 608 + 8192 * i + 128 * j := by
  rw [pagePtr, if_neg not_leafCode_lt, leafCode_sub]
  omega

theorem pageNo_first (within : c < 4) : pageNo cell x c = pnum x c := if_pos within

theorem pageNo_index : pageNo cell x (indexCode i) = exPnum x i := by
  have group : 65 * i / 65 = i := by omega
  have place : 65 * i % 65 = 0 := by omega
  rw [pageNo, if_neg not_indexCode_lt, indexCode_sub, group, if_pos place]

theorem pageNo_leaf (within : j < 64) :
    pageNo cell x (leafCode i j) = exnum (cell (exPnum x i)) j := by
  have group : (65 * i + (j + 1)) / 65 = i := by omega
  have place : (65 * i + (j + 1)) % 65 = j + 1 := by omega
  rw [pageNo, if_neg not_leafCode_lt, leafCode_sub, group, place, if_neg (by omega),
    Nat.add_sub_cancel]

/-- Every code is of one of the three kinds. -/
theorem code_cases (within : c < 264) :
    c < 4 ∨ (∃ i < 4, c = indexCode i) ∨ ∃ i < 4, ∃ j < 64, c = leafCode i j := by
  by_cases first : c < 4
  · exact Or.inl first
  by_cases index : (c - 4) % 65 = 0
  · exact Or.inr (Or.inl ⟨(c - 4) / 65, by omega, by simp only [indexCode]; omega⟩)
  · exact Or.inr (Or.inr ⟨(c - 4) / 65, by omega, (c - 4) % 65 - 1, by omega,
      by simp only [leafCode]; omega⟩)

theorem wants_first (within : c < 4) : Wants ptrEnd c ↔ 96 + 128 * c < ptrEnd := by
  rw [Wants, pagePtr_first within]
  exact and_iff_right (by omega)

theorem wants_index (within : i < 4) : Wants ptrEnd (indexCode i) ↔ 608 + 8192 * i < ptrEnd := by
  rw [Wants, pagePtr_index]
  exact and_iff_right (by simp only [indexCode]; omega)

theorem wants_leaf (hi : i < 4) (hj : j < 64) :
    Wants ptrEnd (leafCode i j) ↔ 608 + 8192 * i + 128 * j < ptrEnd := by
  rw [Wants, pagePtr_leaf hj]
  exact and_iff_right (by simp only [leafCode]; omega)

theorem Wants.mono {ptrEnd' : Nat} (wants : Wants ptrEnd c) (le : ptrEnd ≤ ptrEnd') : Wants ptrEnd' c :=
  ⟨wants.1, by have := wants.2; omega⟩

/-- The index page of a leaf page in use is in use. -/
theorem Wants.index_of_leaf (hi : i < 4) (hj : j < 64) (wants : Wants ptrEnd (leafCode i j)) :
    Wants ptrEnd (indexCode i) := by
  rw [wants_leaf hi hj] at wants
  rw [wants_index hi]
  omega

/-- The numbers of the pages in use depend on the inode and the index pages in use. -/
theorem pageNo_congr {cell' : Nat → Bytes} {x' : Bytes}
    (pages : ∀ i < 8, x'.get16 (112 + 2 * i) = x.get16 (112 + 2 * i))
    (index : ∀ i < 4, Wants ptrEnd (indexCode i) → ∀ j < 64,
      exnum (cell' (exPnum x i)) j = exnum (cell (exPnum x i)) j)
    (wants : Wants ptrEnd c) : pageNo cell' x' c = pageNo cell x c := by
  have ex : ∀ i < 4, exPnum x' i = exPnum x i := fun i hi => by
    have same := pages (i + 4) (by omega)
    rwa [show 112 + 2 * (i + 4) = 120 + 2 * i by omega] at same
  rcases code_cases wants.1 with first | ⟨i, hi, rfl⟩ | ⟨i, hi, j, hj, rfl⟩
  · rw [pageNo_first first, pageNo_first first]
    exact pages c (by omega)
  · rw [pageNo_index, pageNo_index, ex i hi]
  · rw [pageNo_leaf hj, pageNo_leaf hj, ex i hi]
    exact index i hi (wants.index_of_leaf hi hj) j hj

end Sfs
