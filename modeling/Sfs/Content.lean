import Sfs.Pages
import Sfs.Stores

namespace Sfs

/-- The leaf page that holds the entry byte at offset `o`, past the first 96. -/
def leafOf (o : Nat) : Nat :=
  if (o - 96) / 128 < 4 then (o - 96) / 128
  else leafCode (((o - 96) / 128 - 4) / 64) (((o - 96) / 128 - 4) % 64)

/-- The entries of a node with inode `x`, as one byte array. -/
def content (cell : Nat → Bytes) (x : Bytes) : Bytes := fun o =>
  if o < 96 then x (16 + o) else cell (pageNo cell x (leafOf o)) ((o - 96) % 128)

/-- Offset `o` is filled by a listing that ends at `ptrEnd`. -/
def Filled (ptrEnd o : Nat) : Prop := o < 96 ∨ Wants ptrEnd (leafOf o)

instance (ptrEnd o : Nat) : Decidable (Filled ptrEnd o) := inferInstanceAs (Decidable (_ ∨ _))

variable {s : State} {cell cell' : Nat → Bytes} {x x' buf : Bytes} {page : Nat → Nat}
  {ptrEnd ptr i n o k : Nat}

theorem leafOf_first (lower : 96 ≤ o) (upper : o < 608) : leafOf o = (o - 96) / 128 := by
  rw [leafOf, if_pos (by omega)]

theorem leafOf_leaf (lower : 608 ≤ o) :
    leafOf o = leafCode ((o - 608) / 8192) ((o - 608) % 8192 / 128) := by
  have group : ((o - 96) / 128 - 4) / 64 = (o - 608) / 8192 := by omega
  have place : ((o - 96) / 128 - 4) % 64 = (o - 608) % 8192 / 128 := by omega
  rw [leafOf, if_neg (by omega), group, place]

theorem leafOf_lt (lower : 96 ≤ o) : leafOf o < 264 ↔ o < 33376 := by
  by_cases first : o < 608
  · rw [leafOf_first lower first]
    omega
  · rw [leafOf_leaf (by omega), leafCode]
    omega

theorem pagePtr_leafOf (lower : 96 ≤ o) : pagePtr (leafOf o) = 96 + 128 * ((o - 96) / 128) := by
  by_cases first : o < 608
  · rw [leafOf_first lower first, pagePtr_first (by omega)]
  · rw [leafOf_leaf (by omega), pagePtr_leaf (by omega)]
    omega

/-- Everything before the end is filled. -/
theorem filled_of_lt (before : o < ptrEnd) (within : ptrEnd ≤ 33376) : Filled ptrEnd o := by
  by_cases first : o < 96
  · exact Or.inl first
  · refine Or.inr ⟨(leafOf_lt (by omega)).mpr (by omega), ?_⟩
    rw [pagePtr_leafOf (by omega)]
    omega

theorem listingPages_apply : listingPages s page ptrEnd ptr i buf n o =
    if ptr ≤ o ∧ o < ptr + 128 * n ∧ ptr + 128 * ((o - ptr) / 128) < ptrEnd
    then inodeLoad s (page (i + (o - ptr) / 128)) ((o - ptr) % 128) else buf o := by
  induction n generalizing ptr i buf with
  | zero => rw [listingPages, if_neg (by omega)]
  | succ n ih =>
    by_cases stop : ptr ≥ ptrEnd
    · rw [listingPages, if_pos stop, if_neg (by omega)]
    · rw [listingPages, if_neg stop, ih]
      by_cases here : ptr ≤ o ∧ o < ptr + 128
      · have zero : (o - ptr) / 128 = 0 := by omega
        rw [if_neg (by omega), if_pos (by omega), Bytes.copy_apply_of_mem here.1 here.2, zero]
        congr 1
        omega
      · rw [Bytes.copy_apply_of_not_mem (by omega)]
        by_cases later : ptr + 128 ≤ o ∧ o < ptr + 128 + 128 * n ∧
            ptr + 128 + 128 * ((o - (ptr + 128)) / 128) < ptrEnd
        · have index : i + 1 + (o - (ptr + 128)) / 128 = i + (o - ptr) / 128 := by omega
          have place : (o - (ptr + 128)) % 128 = (o - ptr) % 128 := by omega
          rw [if_pos later, if_pos (by omega), index, place]
        · rw [if_neg later, if_neg (by omega)]

theorem listingIndex_apply : listingIndex s x ptrEnd ptr i buf n o =
    if ptr ≤ o ∧ o < ptr + 8192 * n ∧ ptr + 128 * ((o - ptr) / 128) < ptrEnd
    then inodeLoad s (exnum (inodeLoad s (exPnum x (i + (o - ptr) / 8192))) ((o - ptr) % 8192 / 128))
      ((o - ptr) % 128)
    else buf o := by
  induction n generalizing ptr i buf with
  | zero => rw [listingIndex, if_neg (by omega)]
  | succ n ih =>
    by_cases stop : ptr ≥ ptrEnd
    · rw [listingIndex, if_pos stop, if_neg (by omega)]
    · rw [listingIndex, if_neg stop, ih, listingPages_apply]
      by_cases here : ptr ≤ o ∧ o < ptr + 8192
      · rw [if_neg (by omega)]
        by_cases filled : ptr + 128 * ((o - ptr) / 128) < ptrEnd
        · have group : i + (o - ptr) / 8192 = i := by omega
          have leaf : 0 + (o - ptr) / 128 = (o - ptr) % 8192 / 128 := by omega
          rw [if_pos (by omega), if_pos (by omega), group, leaf]
        · rw [if_neg (by omega), if_neg (by omega)]
      · by_cases later : ptr + 8192 ≤ o ∧ o < ptr + 8192 + 8192 * n ∧
            ptr + 8192 + 128 * ((o - (ptr + 8192)) / 128) < ptrEnd
        · have group : i + 1 + (o - (ptr + 8192)) / 8192 = i + (o - ptr) / 8192 := by omega
          have leaf : (o - (ptr + 8192)) % 8192 / 128 = (o - ptr) % 8192 / 128 := by omega
          have place : (o - (ptr + 8192)) % 128 = (o - ptr) % 128 := by omega
          rw [if_pos later, if_pos (by omega), group, leaf, place]
        · rw [if_neg later, if_neg (by omega), if_neg (by omega)]

/-- A listing is the content of the node, up to the end of its last page. -/
theorem listing_apply (buf : Bytes) (entry : Nat) : (listing entry s k buf).2 o =
    if Filled (entry * size (inodeLoad s k)) o
    then content (fun q => inodeLoad s q) (inodeLoad s k) o else buf o := by
  simp only [listing, listingIndex_apply, listingPages_apply]
  by_cases inline : o < 96
  · have filled : Filled (entry * size (inodeLoad s k)) o := Or.inl inline
    rw [if_neg (by omega), if_neg (by omega), if_pos filled, content, if_pos inline,
      Bytes.copy_apply_of_mem (by omega) (by omega)]
    rfl
  · have wants : Filled (entry * size (inodeLoad s k)) o ↔
        o < 33376 ∧ 96 + 128 * ((o - 96) / 128) < entry * size (inodeLoad s k) := by
      rw [Filled, Wants, leafOf_lt (by omega), pagePtr_leafOf (by omega)]
      exact or_iff_right inline
    simp only [wants]
    rw [content, if_neg inline, Bytes.copy_apply_of_not_mem (by omega)]
    by_cases first : o < 608
    · rw [if_neg (by omega), leafOf_first (by omega) first, pageNo_first (by omega)]
      by_cases filled : 96 + 128 * ((o - 96) / 128) < entry * size (inodeLoad s k)
      · rw [if_pos (by omega), if_pos (by omega), Nat.zero_add]
      · rw [if_neg (by omega), if_neg (by omega)]
    · rw [leafOf_leaf (by omega), pageNo_leaf (by omega)]
      by_cases filled : o < 33376 ∧ 96 + 128 * ((o - 96) / 128) < entry * size (inodeLoad s k)
      · have place : (o - 608) % 128 = (o - 96) % 128 := by omega
        rw [if_pos (by omega), if_pos filled, Nat.zero_add, place]
      · rw [if_neg (by omega), if_neg filled, if_neg (by omega)]

/-- The content up to the end of the last page depends on the inode and on the
pages in use. -/
theorem content_congr (inode : ∀ o < 112, x' (16 + o) = x (16 + o))
    (pages : ∀ c, Wants ptrEnd c → cell' (pageNo cell x c) = cell (pageNo cell x c))
    (filled : Filled ptrEnd o) : content cell' x' o = content cell x o := by
  rcases filled with inline | wants
  · rw [content, content, if_pos inline, if_pos inline]
    exact inode o (by omega)
  · have same : pageNo cell' x' (leafOf o) = pageNo cell x (leafOf o) := by
      refine pageNo_congr (fun i hi => ?_) (fun i hi index j hj => ?_) wants
      · refine Bytes.get16_congr ?_ ?_
        · have := inode (96 + 2 * i) (by omega)
          rwa [show 16 + (96 + 2 * i) = 112 + 2 * i by omega] at this
        · have := inode (97 + 2 * i) (by omega)
          rwa [show 16 + (97 + 2 * i) = 112 + 2 * i + 1 by omega] at this
      · have page := pages _ index
        rw [pageNo_index] at page
        rw [page]
    by_cases inline : o < 96
    · rw [content, content, if_pos inline, if_pos inline]
      exact inode o (by omega)
    · rw [content, content, if_neg inline, if_neg inline, same, pages _ wants]

end Sfs
