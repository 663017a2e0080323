import Sfs.Fault
import Sfs.FirstFile

namespace Sfs

/-- Where the accessors find an entry: the inode that holds it and its place
there. `bad` tells whether an index was outside its array. -/
structure Slot where
  inum : Int
  inode : Bytes
  offset : Nat
  bad : Bool

/-- The arithmetic of the accessors, for `direct` entries in the inode and
`leaf` entries of `entry` bytes on a page. -/
def slotOf (direct leaf entry : Nat) (s : State) (inum : Nat) (lv0Offset : Int) : Slot :=
  let lv2Offset := lv0Offset - direct - 4 * leaf
  let lv1Offset := lv0Offset - direct
  let inode := inodeLoad s inum
  if lv2Offset ≥ 0 then
    let lv1Page := lv2Offset / 64 * leaf
    let lv2Page := lv2Offset / leaf
    let inodenum := exnum (inodeLoad s (exPnum inode lv1Page.toNat)) lv2Page.toNat
    ⟨inodenum, inodeLoad s inodenum, entry * (lv2Offset % leaf).toNat, lv1Page ≥ 4 || lv2Page ≥ 64⟩
  else if lv1Offset ≥ 0 then
    let lv1Page := lv1Offset / leaf
    let inodenum := pnum inode lv1Page.toNat
    ⟨inodenum, inodeLoad s inodenum, entry * (lv1Offset % leaf).toNat, lv1Page ≥ 4⟩
  else ⟨inum, inode, 16 + entry * lv0Offset.toNat, lv0Offset < 0⟩

def dnodeEntryGet (s : State) (inum : Nat) (lv0Offset : Int) : Bytes × State :=
  if lv0Offset ≥ size (inodeLoad s inum) then (diEntC (Bytes.cstr [] Bytes.zero) 0, s)
  else
    let slot := slotOf 6 8 diEntSize s inum lv0Offset
    (slot.inode.window slot.offset diEntSize, s.fault slot.bad)

/-- Unlike `dnodeEntryGet`, a negative index is told apart. -/
def fnodeEntryGet (s : State) (inum : Nat) (lv0Offset : Int) : Nat × State :=
  if lv0Offset ≥ size (inodeLoad s inum) then (0, s)
  else if lv0Offset < 0 then (0, s)
  else
    let slot := slotOf 24 32 blknumSize s inum lv0Offset
    (slot.inode.get32 slot.offset, s.fault slot.bad)

def dnodeEntrySet (s : State) (inum : Nat) (lv0Offset : Int) (filename : Bytes) (ino : Int) : Int × State :=
  if lv0Offset ≥ size (inodeLoad s inum) then (0, s)
  else
    let slot := slotOf 6 8 diEntSize s inum lv0Offset
    (1, inodeDump (s.fault slot.bad) slot.inum
      (slot.inode.copy slot.offset (diEntC filename (ushort ino)) 0 diEntSize))

def fnodeEntrySet (s : State) (inum : Nat) (lv0Offset : Int) (blknum : Nat) : Int × State :=
  if lv0Offset ≥ size (inodeLoad s inum) then (0, s)
  else
    let slot := slotOf 24 32 blknumSize s inum lv0Offset
    (1, inodeDump (s.fault slot.bad) slot.inum (slot.inode.put32 slot.offset blknum))

/-- Element `i` of the listing of a directory. -/
def listedEntry (s : State) (k i : Nat) : Bytes := diEnt (dnodeListing s k).2.d i

/-- Element `i` of the listing of a file. -/
def listedBlock (s : State) (k i : Nat) : Nat := (fnodeListing s k).2.f.get32 (blknumSize * i)

/-- Node `k` and the pages that its size needs are distinct inodes. -/
structure Paged (p : Pool Bytes) (k : Nat) : Prop where
  inj : ∀ c c', Holds (p.cell k) c → Holds (p.cell k) c' → placeNo p.cell k c = placeNo p.cell k c' → c = c'
  range : ∀ c, Holds (p.cell k) c → 2 ≤ placeNo p.cell k c ∧ placeNo p.cell k c < 1024
  fits : endOf (p.cell k) ≤ 33376

/-- Only element `i` of the listing of node `k` differs in `s'`, and only one
inode has been written for it, the node or one of its pages. -/
structure SetAt {α : Type} (listed : State → Nat → Nat → α) (s s' : State) (k i : Nat) (v : α) : Prop where
  defined : s'.ub = s.ub
  size : size (inodeLoad s' k) = size (inodeLoad s k)
  listed : ∀ j < Sfs.size (inodeLoad s k), listed s' k j = if j = i then v else listed s k j
  others : ∃ c, Holds (s.stores.pool.cell k) c ∧ ∃ x, s'.stores =
    s.stores.setPool (s.stores.pool.write (placeNo s.stores.pool.cell k c) x)

structure DnodeIndexed (s : State) (k i : Nat) : Prop where
  get : dnodeEntryGet s k i = (listedEntry s k i, s)
  set : ∀ filename ino, SetAt listedEntry s (dnodeEntrySet s k i filename ino).2 k i (diEntC filename (ushort ino))

structure FnodeIndexed (s : State) (k i : Nat) : Prop where
  get : fnodeEntryGet s k i = (listedBlock s k i, s)
  set : ∀ blknum < 4294967296, SetAt listedBlock s (fnodeEntrySet s k i blknum).2 k i blknum

variable {s s' : State} {p : Pool Bytes} {cell : Nat → Bytes} {k c i o : Nat} {x v : Bytes}

/-- The place that holds the entry byte at offset `o`. -/
def placeOf (o : Nat) : Nat := if o < 96 then 264 else leafOf o

/-- Where the entry byte at offset `o` stands in its inode. -/
def posOf (o : Nat) : Nat := if o < 96 then 16 + o else (o - 96) % 128

theorem content_place (inPlace : Filled 33376 o) : content cell (cell k) o = cell (placeNo cell k (placeOf o)) (posOf o) := by
  by_cases inline : o < 96
  · rw [content, if_pos inline, placeOf, if_pos inline, posOf, if_pos inline, placeNo_self]
  · rw [content, if_neg inline, placeOf, if_neg inline, posOf, if_neg inline,
      placeNo_page (inPlace.resolve_left inline)]

theorem placeOf_inode : placeOf o = 264 ↔ o < 96 := by
  rw [placeOf]
  split
  next inline => exact iff_of_true rfl inline
  next inline =>
    refine iff_of_false (fun same => ?_) inline
    rw [leafOf, leafCode] at same
    split at same <;> omega

theorem placeOf_first (first : c < 4) : placeOf o = c ↔ 96 + 128 * c ≤ o ∧ o < 224 + 128 * c := by
  rw [placeOf]
  split
  next inline => omega
  next inline =>
    rw [leafOf, leafCode]
    split <;> omega

theorem placeOf_leaf {a j : Nat} (within : j < 64) :
    placeOf o = leafCode a j ↔ 608 + 8192 * a + 128 * j ≤ o ∧ o < 736 + 8192 * a + 128 * j := by
  rw [placeOf, leafCode]
  split
  next inline =>
    refine iff_of_false (fun same => ?_) (by omega)
    omega
  next inline =>
    rw [leafOf, leafCode]
    split <;> omega

theorem posOf_inode (inline : o < 96) : posOf o = 16 + o := if_pos inline

theorem posOf_page (past : 96 ≤ o) : posOf o = (o - 96) % 128 := if_neg (by omega)

namespace Paged

variable (paged : Paged p k)

include paged

/-- Writing entry bytes into an inode of the node leaves its page numbers as they are. -/
theorem placeNo_write (holds : Holds (p.cell k) c) (leaf : ∀ i < 4, c ≠ indexCode i)
    (fields : c = 264 → ∀ o, o < 16 ∨ 112 ≤ o → x o = p.cell k o) {c' : Nat} (holds' : Holds (p.cell k) c') :
    placeNo (p.write (placeNo p.cell k c) x).cell k c' = placeNo p.cell k c' := by
  rcases holds' with rfl | wants
  · simp
  rw [placeNo_page wants, placeNo_page wants]
  refine pageNo_congr (fun j hj => ?_) (fun j hj index a _ => ?_) wants
  · by_cases self : c = 264
    · have here : placeNo p.cell k c = k := by rw [self, placeNo_self]
      rw [here, Pool.write_cell_self]
      exact Bytes.get16_congr (fields self _ (by omega)) (fields self _ (by omega))
    · have apart : k ≠ placeNo p.cell k c := fun same =>
        self (paged.inj c 264 holds (.self _) (by rw [placeNo_self, ← same]))
      rw [Pool.write_cell_of_ne _ _ apart]
  · have ne : exPnum (p.cell k) j ≠ placeNo p.cell k c := fun same => by
      have atIndex : placeNo p.cell k _ = _ := placeNo_page index
      rw [pageNo_index] at atIndex
      exact leaf j hj (paged.inj c _ holds (.page index) (by rw [atIndex, same]))
    rw [Pool.write_cell_of_ne _ _ ne]

/-- The entries after an inode of the node has been written. -/
theorem content_write (holds : Holds (p.cell k) c) (leaf : ∀ i < 4, c ≠ indexCode i)
    (fields : c = 264 → ∀ o, o < 16 ∨ 112 ≤ o → x o = p.cell k o) (filled : Filled (endOf (p.cell k)) o) :
    bytesOf (p.write (placeNo p.cell k c) x) k o = if placeOf o = c then x (posOf o) else bytesOf p k o := by
  have place : Holds (p.cell k) (placeOf o) := by
    by_cases inline : o < 96
    · rw [placeOf, if_pos inline]
      exact .self _
    · rw [placeOf, if_neg inline]
      exact .page (filled.resolve_left inline)
  have within : Filled 33376 o := filled.imp_right fun wants => wants.mono paged.fits
  rw [bytesOf, bytesOf, content_place within, content_place within, paged.placeNo_write holds leaf fields place]
  split
  next here => rw [here, Pool.write_cell_self]
  next other =>
    rw [Pool.write_cell_of_ne _ _ fun same => other (paged.inj _ _ place holds same)]

end Paged

/-- The entries of directories and of files. -/
inductive Layout : Nat → Nat → Nat → Prop
  | dir : Layout 6 8 16
  | file : Layout 24 32 4

/-- The slot is that of entry `i` at place `c` of node `k`. -/
structure EntrySlot (p : Pool Bytes) (k : Nat) (slot : Slot) (entry i c : Nat) : Prop where
  holds : Holds (p.cell k) c
  leaf : ∀ j < 4, c ≠ indexCode j
  inum : slot.inum = placeNo p.cell k c
  inode : slot.inode = p.cell (placeNo p.cell k c)
  inside : slot.offset + entry ≤ 128
  fields : c = 264 → 16 ≤ slot.offset ∧ slot.offset + entry ≤ 112
  covers : ∀ r < entry, placeOf (entry * i + r) = c ∧ posOf (entry * i + r) = slot.offset + r
  only : ∀ o, placeOf o = c → slot.offset ≤ posOf o → posOf o < slot.offset + entry →
    entry * i ≤ o ∧ o < entry * i + entry

variable {direct leaf entry : Nat}

theorem slotOf_direct (layout : Layout direct leaf entry) (paged : Paged s.stores.pool k) (here : i < direct) :
    (slotOf direct leaf entry s k i).bad = false ∧
      EntrySlot s.stores.pool k (slotOf direct leaf entry s k i) entry i 264 := by
  have range := paged.range 264 (.self _)
  rw [placeNo_self] at range
  have loaded : inodeLoad s k = s.stores.pool.cell k := inodeLoad_cell (by omega) (by omega)
  have level2 : ¬ (i : Int) - direct - 4 * leaf ≥ 0 := by omega
  have level1 : ¬ (i : Int) - direct ≥ 0 := by omega
  have slot : slotOf direct leaf entry s k i = ⟨k, s.stores.pool.cell k, 16 + entry * i, false⟩ := by
    simp only [slotOf, level2, level1, if_false, loaded]
    simp
  rw [slot]
  refine ⟨rfl, .self _, fun j below => by simp only [indexCode]; omega, by rw [placeNo_self],
    by rw [placeNo_self], ?_, fun _ => ?_, fun r within => ?_, fun o place lower upper => ?_⟩
  · cases layout <;> simp only <;> omega
  · cases layout <;> simp only <;> omega
  · have inline : entry * i + r < 96 := by cases layout <;> omega
    exact ⟨placeOf_inode.mpr inline, (posOf_inode inline).trans (Nat.add_assoc ..).symm⟩
  · rw [placeOf_inode] at place
    simp only [posOf_inode place] at lower upper
    omega

theorem EntrySlot.of_page {offset : Nat} (base : Nat) (wants : Wants (endOf (p.cell k)) c) (leaf : ∀ j < 4, c ≠ indexCode j)
    (span : ∀ o, placeOf o = c ↔ base ≤ o ∧ o < base + 128) (aligned : base % 128 = 96)
    (start : entry * i = base + offset) (inside : offset + entry ≤ 128) :
    EntrySlot p k ⟨placeNo p.cell k c, p.cell (placeNo p.cell k c), offset, false⟩ entry i c := by
  have bound := wants.1
  refine ⟨.page wants, leaf, rfl, rfl, inside, fun same => by omega, fun r within => ⟨(span _).mpr (by omega), ?_⟩,
    fun o place lower upper => ?_⟩
  · rw [posOf_page (by omega)]
    exact (by omega : (entry * i + r - 96) % 128 = offset + r)
  · rw [span] at place
    rw [posOf_page (by omega)] at lower upper
    replace lower : offset ≤ (o - 96) % 128 := lower
    replace upper : (o - 96) % 128 < offset + entry := upper
    omega

section

variable (layout : Layout direct leaf entry) (paged : Paged s.stores.pool k)
  (entries : entrySize (s.stores.pool.cell k) = entry) (before : i < size (s.stores.pool.cell k))

include layout paged entries before

/-- The slot of an entry on one of the first four pages. -/
theorem slotOf_first (past : direct ≤ i) (near : i < direct + 4 * leaf) :
    (slotOf direct leaf entry s k i).bad = false ∧
      ∃ c, EntrySlot s.stores.pool k (slotOf direct leaf entry s k i) entry i c := by
  have range := paged.range 264 (.self _)
  rw [placeNo_self] at range
  have loaded : inodeLoad s k = s.stores.pool.cell k := inodeLoad_cell (by omega) (by omega)
  have atEnd : entry * i + entry ≤ endOf (s.stores.pool.cell k) := by
    rw [endOf, entries]
    exact Nat.mul_le_mul_left entry before
  have level2 : ¬ (i : Int) - direct - 4 * leaf ≥ 0 := by omega
  have level1 : (i : Int) - direct ≥ 0 := by omega
  have page : (((i : Int) - direct) / leaf).toNat = (i - direct) / leaf := by cases layout <;> omega
  have few : (i - direct) / leaf < 4 := by cases layout <;> omega
  have rest : (((i : Int) - direct) % leaf).toNat = (i - direct) % leaf := by cases layout <;> omega
  have within : decide (((i : Int) - direct) / leaf ≥ 4) = false := by
    rw [decide_eq_false_iff_not]
    cases layout <;> omega
  have wants : Wants (endOf (s.stores.pool.cell k)) ((i - direct) / leaf) := by
    rw [wants_first few]
    cases layout <;> omega
  have number : placeNo s.stores.pool.cell k _ = _ := placeNo_page wants
  rw [pageNo_first few] at number
  have pageRange := paged.range _ (.page wants)
  have loadedPage : inodeLoad s (pnum (s.stores.pool.cell k) ((i - direct) / leaf)) =
      s.stores.pool.cell (placeNo s.stores.pool.cell k ((i - direct) / leaf)) := by
    rw [← number]
    exact inodeLoad_cell (by omega) (by omega)
  have slot : slotOf direct leaf entry s k i = ⟨placeNo s.stores.pool.cell k ((i - direct) / leaf),
      s.stores.pool.cell (placeNo s.stores.pool.cell k ((i - direct) / leaf)),
      entry * ((i - direct) % leaf), false⟩ := by
    simp only [slotOf, level2, level1, if_false, if_true, loaded, page, rest, within, loadedPage, number]
  rw [slot]
  refine ⟨rfl, _, .of_page (96 + 128 * ((i - direct) / leaf)) wants
    (fun j below => by simp only [indexCode]; omega) (fun o => (placeOf_first few).trans (by omega)) (by omega) ?_ ?_⟩
  · cases layout <;> omega
  · cases layout <;> omega

/-- The slot of an entry on a page under the first index page. -/
theorem slotOf_second (past : direct + 4 * leaf ≤ i) (near : i < direct + 4 * leaf + 64) :
    (slotOf direct leaf entry s k i).bad = false ∧
      ∃ c, EntrySlot s.stores.pool k (slotOf direct leaf entry s k i) entry i c := by
  have range := paged.range 264 (.self _)
  rw [placeNo_self] at range
  have loaded : inodeLoad s k = s.stores.pool.cell k := inodeLoad_cell (by omega) (by omega)
  have atEnd : entry * i + entry ≤ endOf (s.stores.pool.cell k) := by
    rw [endOf, entries]
    exact Nat.mul_le_mul_left entry before
  have level2 : (i : Int) - direct - 4 * leaf ≥ 0 := by omega
  have group : (((i : Int) - direct - 4 * leaf) / 64 * leaf).toNat = 0 := by cases layout <;> omega
  have page : (((i : Int) - direct - 4 * leaf) / leaf).toNat = (i - direct - 4 * leaf) / leaf := by
    cases layout <;> omega
  have few : (i - direct - 4 * leaf) / leaf < 64 := by cases layout <;> omega
  have rest : (((i : Int) - direct - 4 * leaf) % leaf).toNat = (i - direct - 4 * leaf) % leaf := by
    cases layout <;> omega
  have within : (decide (((i : Int) - direct - 4 * leaf) / 64 * leaf ≥ 4) ||
      decide (((i : Int) - direct - 4 * leaf) / leaf ≥ 64)) = false := by
    rw [Bool.or_eq_false_iff, decide_eq_false_iff_not, decide_eq_false_iff_not]
    cases layout <;> omega
  have wants : Wants (endOf (s.stores.pool.cell k)) (leafCode 0 ((i - direct - 4 * leaf) / leaf)) := by
    rw [wants_leaf (by decide) few]
    cases layout <;> omega
  have index := wants.index_of_leaf (by decide) few
  have number : placeNo s.stores.pool.cell k _ = _ := placeNo_page wants
  have numberIndex : placeNo s.stores.pool.cell k _ = _ := placeNo_page index
  rw [pageNo_leaf few] at number
  rw [pageNo_index] at numberIndex
  have pageRange := paged.range _ (.page wants)
  have indexRange := paged.range _ (.page index)
  have loadedIndex : inodeLoad s (exPnum (s.stores.pool.cell k) 0) =
      s.stores.pool.cell (exPnum (s.stores.pool.cell k) 0) := by
    rw [← numberIndex]
    exact inodeLoad_cell (by omega) (by omega)
  rw [← loadedIndex] at number
  have loadedPage : inodeLoad s (exnum (inodeLoad s (exPnum (s.stores.pool.cell k) 0))
      ((i - direct - 4 * leaf) / leaf)) =
      s.stores.pool.cell (placeNo s.stores.pool.cell k (leafCode 0 ((i - direct - 4 * leaf) / leaf))) := by
    rw [← number]
    exact inodeLoad_cell (by omega) (by omega)
  have slot : slotOf direct leaf entry s k i =
      ⟨placeNo s.stores.pool.cell k (leafCode 0 ((i - direct - 4 * leaf) / leaf)),
      s.stores.pool.cell (placeNo s.stores.pool.cell k (leafCode 0 ((i - direct - 4 * leaf) / leaf))),
      entry * ((i - direct - 4 * leaf) % leaf), false⟩ := by
    simp only [slotOf, level2, if_true, loaded, group, page, rest, within, loadedPage, number]
  rw [slot]
  refine ⟨rfl, _, .of_page (608 + 128 * ((i - direct - 4 * leaf) / leaf)) wants
    (fun j below => by simp only [indexCode, leafCode]; omega) (fun o => (placeOf_leaf few).trans (by omega))
    (by omega) ?_ ?_⟩
  · cases layout <;> omega
  · cases layout <;> omega

/-- Up to the 64th entry under the index pages the slot is that of the entry. -/
theorem slotOf_near (near : i < direct + 4 * leaf + 64) : (slotOf direct leaf entry s k i).bad = false ∧
    ∃ c, EntrySlot s.stores.pool k (slotOf direct leaf entry s k i) entry i c := by
  by_cases inode : i < direct
  · obtain ⟨bad, slot⟩ := slotOf_direct layout paged inode
    exact ⟨bad, _, slot⟩
  · by_cases first : i < direct + 4 * leaf
    · exact slotOf_first layout paged entries before (by omega) first
    · exact slotOf_second layout paged entries before (by omega) near

omit paged entries before in
/-- From the 65th on the number of the index page is outside its array. -/
theorem slotOf_far (far : direct + 4 * leaf + 64 ≤ i) : (slotOf direct leaf entry s k i).bad = true := by
  have level2 : (i : Int) - direct - 4 * leaf ≥ 0 := by omega
  have exceeds : decide (((i : Int) - direct - 4 * leaf) / 64 * leaf ≥ 4) = true := by
    rw [decide_eq_true_iff]
    cases layout <;> omega
  simp only [slotOf, level2, if_true, exceeds, Bool.true_or]

end

theorem posOf_lt : posOf o < 128 := by
  rw [posOf]
  split <;> omega

theorem Paged.inodeLoad_eq (paged : Paged s.stores.pool k) : inodeLoad s k = s.stores.pool.cell k := by
  have range := paged.range 264 (.self _)
  rw [placeNo_self] at range
  exact inodeLoad_cell (by omega) (by omega)

/-- The listing of the node. -/
theorem Paged.listing_eq (paged : Paged s.stores.pool k) (buf : Bytes) (filled : Filled (endOf (s.stores.pool.cell k)) o) :
    (listing (entrySize (s.stores.pool.cell k)) s k buf).2 o = bytesOf s.stores.pool k o := by
  rw [listing_apply, paged.inodeLoad_eq, if_pos (by exact filled), bytesOf]
  refine content_congr (fun _ _ => rfl) (fun c wants => ?_) filled
  have range := paged.range c (.page wants)
  rw [placeNo_page wants] at range
  exact inodeLoad_cell (by omega) (by omega)

namespace EntrySlot

variable {slot : Slot} (here : EntrySlot p k slot entry i c) (paged : Paged p k)

include here paged

theorem bytes_eq {r : Nat} (within : r < entry) (filled : Filled (endOf (p.cell k)) (entry * i + r)) :
    bytesOf p k (entry * i + r) = slot.inode (slot.offset + r) := by
  obtain ⟨place, pos⟩ := here.covers r within
  rw [bytesOf, content_place (filled.imp_right fun wants => wants.mono paged.fits), place, pos, here.inode]

omit paged in
theorem fields_eq (same : c = 264) (out : o < 16 ∨ 112 ≤ o) :
    (slot.inode.copy slot.offset v 0 entry).take 128 o = ((p.cell k).take 128) o := by
  have fields := here.fields same
  simp only [Bytes.take, here.inode, same, placeNo_self]
  split
  · exact Bytes.copy_apply_of_not_mem (by omega)
  · rfl

/-- The entries after the slot has been written. -/
theorem bytes_write (whole : (p.cell k).take 128 = p.cell k) (filled : Filled (endOf (p.cell k)) o) :
    bytesOf (p.write (placeNo p.cell k c) ((slot.inode.copy slot.offset v 0 entry).take 128)) k o =
      if entry * i ≤ o ∧ o < entry * i + entry then v (o - entry * i) else bytesOf p k o := by
  rw [paged.content_write here.holds here.leaf (fun same o out => by rw [here.fields_eq same out, whole]) filled,
    Bytes.take_apply_of_lt posOf_lt]
  by_cases inside : entry * i ≤ o ∧ o < entry * i + entry
  · obtain ⟨r, rfl⟩ := Nat.exists_eq_add_of_le inside.1
    obtain ⟨place, pos⟩ := here.covers r (by omega)
    rw [if_pos place, if_pos inside, pos, Bytes.copy_apply_of_mem (by omega) (by omega)]
    congr 1
    omega
  · rw [if_neg inside]
    split
    next place =>
      have outside : posOf o < slot.offset ∨ slot.offset + entry ≤ posOf o := by
        by_contra within
        exact inside (here.only o place (by omega) (by omega))
      rw [Bytes.copy_apply_of_not_mem outside, bytesOf,
        content_place (filled.imp_right fun wants => wants.mono paged.fits), place, here.inode]
    next => rfl

/-- The node afterwards. -/
theorem paged_write (whole : (p.cell k).take 128 = p.cell k) {p' : Pool Bytes}
    (written : p' = p.write (placeNo p.cell k c) ((slot.inode.copy slot.offset v 0 entry).take 128)) :
    Paged p' k ∧ isdir (p'.cell k) = isdir (p.cell k) ∧ size (p'.cell k) = size (p.cell k) := by
  have header : ∀ o < 16, p'.cell k o = p.cell k o := by
    intro o within
    rw [written]
    by_cases self : c = 264
    · have number : placeNo p.cell k c = k := by rw [self, placeNo_self]
      rw [number, Pool.write_cell_self, here.fields_eq self (Or.inl within), whole]
    · have apart : k ≠ placeNo p.cell k c := fun same =>
        self (paged.inj c 264 here.holds (.self _) (by rw [placeNo_self, ← same]))
      rw [Pool.write_cell_of_ne _ _ apart]
  have dir : isdir (p'.cell k) = isdir (p.cell k) := header 12 (by omega)
  have sizes : size (p'.cell k) = size (p.cell k) := Bytes.get16_congr (header _ (by omega)) (header _ (by omega))
  have ends := endOf_congr dir sizes
  have places : ∀ c', Holds (p'.cell k) c' → Holds (p.cell k) c' ∧ placeNo p'.cell k c' = placeNo p.cell k c' := by
    intro c' holds
    have was : Holds (p.cell k) c' := by rwa [Holds, ends] at holds
    refine ⟨was, ?_⟩
    rw [written]
    exact paged.placeNo_write here.holds here.leaf (fun same o out => by rw [here.fields_eq same out, whole]) was
  refine ⟨⟨fun c₁ c₂ holds₁ holds₂ same => ?_, fun c' holds => ?_, by rw [ends]; exact paged.fits⟩, dir, sizes⟩
  · rw [(places c₁ holds₁).2, (places c₂ holds₂).2] at same
    exact paged.inj c₁ c₂ (places c₁ holds₁).1 (places c₂ holds₂).1 same
  · rw [(places c' holds).2]
    exact paged.range c' (places c' holds).1

end EntrySlot

/-- The dump that sets an entry, and the listing after it. -/
theorem entrySet_spec {slot : Slot} (here : EntrySlot s.stores.pool k slot entry i c) (paged : Paged s.stores.pool k)
    (entries : entrySize (s.stores.pool.cell k) = entry)
    (run : inodeDump (s.fault false) slot.inum (slot.inode.copy slot.offset v 0 entry) = s') :
    s'.ub = s.ub ∧ size (inodeLoad s' k) = size (inodeLoad s k) ∧
      (∃ c, Holds (s.stores.pool.cell k) c ∧ ∃ x, s'.stores =
        s.stores.setPool (s.stores.pool.write (placeNo s.stores.pool.cell k c) x)) ∧
      ∀ buf o, Filled (endOf (s.stores.pool.cell k)) o → (listing entry s' k buf).2 o =
        if entry * i ≤ o ∧ o < entry * i + entry then v (o - entry * i) else bytesOf s.stores.pool k o := by
  have range := paged.range c here.holds
  rw [fault_false, here.inum] at run
  have ub : s'.ub = s.ub := by rw [← run, inodeDump_eq (by omega)]
  have stores : s'.stores = _ := run ▸ stores_inodeDump (by omega) (by omega)
  clear run
  have whole := cell_take (s := s) k
  have pool : s'.stores.pool = _ := congrArg Stores.pool stores
  rw [Stores.setPool_pool] at pool
  obtain ⟨paged', dir, sizes⟩ := here.paged_write paged whole pool
  have entries' : entrySize (s'.stores.pool.cell k) = entry := by rw [← entries, entrySize, entrySize, dir]
  refine ⟨ub, by rw [paged'.inodeLoad_eq, paged.inodeLoad_eq, sizes], ⟨c, here.holds, _, stores⟩, fun buf o filled => ?_⟩
  have filled' : Filled (endOf (s'.stores.pool.cell k)) o := by rwa [endOf_congr dir sizes]
  have listed := paged'.listing_eq buf filled'
  rw [entries'] at listed
  rw [listed, pool, here.bytes_write paged whole filled]

theorem dnodeListing_bytes : (dnodeListing s k).2.d = (listing 16 s k s.d).2 := by rw [dnodeListing, diEntSize]

theorem fnodeListing_bytes : (fnodeListing s k).2.f = (listing 4 s k s.f).2 := by rw [fnodeListing, blknumSize]

/-- An entry has no bytes past its 16. -/
theorem diEntC_window {filename : Bytes} {n : Nat} : (diEntC filename n).window 0 16 = diEntC filename n := by
  funext o
  rw [Bytes.window, Bytes.take]
  split
  · rw [Nat.zero_add]
  · rw [diEntC, Bytes.copy_apply_of_not_mem (by omega), Bytes.put16_apply_of_ne (by omega),
      Bytes.take_apply_of_le (by omega)]

theorem put32_eq_copy {a n : Nat} : x.put32 a n = x.copy a (Bytes.zero.put32 0 n) 0 4 := by
  funext o
  by_cases inside : a ≤ o ∧ o < a + 4
  · obtain ⟨r, rfl⟩ := Nat.exists_eq_add_of_le inside.1
    rw [Bytes.copy_apply_of_mem (by omega) (by omega), Nat.add_sub_cancel_left, Nat.zero_add]
    rcases (by omega : r = 0 ∨ r = 1 ∨ r = 2 ∨ r = 3) with rfl | rfl | rfl | rfl <;> simp [Bytes.put32, Bytes.put16]
    intro same
    omega
  · rw [Bytes.put32_apply_of_ne (by omega), Bytes.copy_apply_of_not_mem (by omega)]

section

variable (paged : Paged s.stores.pool k) (before : i < size (inodeLoad s k))

include paged before

theorem dnodeIndexed_near (dir : isdir (inodeLoad s k) ≠ 0) (near : i < 102) : DnodeIndexed s k i := by
  have loaded := paged.inodeLoad_eq
  rw [loaded] at before dir
  have entries : entrySize (s.stores.pool.cell k) = 16 := by rw [entrySize, if_pos dir, diEntSize]
  have ends : endOf (s.stores.pool.cell k) = 16 * size (s.stores.pool.cell k) := by rw [endOf, entries]
  have fits := paged.fits
  have inside : ¬ (i : Int) ≥ size (inodeLoad s k) := by rw [loaded]; omega
  obtain ⟨bad, c, here⟩ := slotOf_near .dir paged entries before near
  have filled : ∀ j < size (s.stores.pool.cell k), ∀ r < 16, Filled (endOf (s.stores.pool.cell k)) (16 * j + r) :=
    fun j within r small => by
      rw [ends] at fits ⊢
      exact filled_entry within fits small
  have listed : ∀ j < size (s.stores.pool.cell k), ∀ r < 16,
      (dnodeListing s k).2.d (16 * j + r) = bytesOf s.stores.pool k (16 * j + r) := fun j within r small => by
    have listed := paged.listing_eq s.d (filled j within r small)
    rw [entries] at listed
    rw [dnodeListing_bytes, listed]
  constructor
  · have entry : (slotOf 6 8 16 s k i).inode.window (slotOf 6 8 16 s k i).offset 16 = listedEntry s k i := by
      rw [listedEntry, diEnt, diEntSize]
      refine Bytes.window_congr fun r small => ?_
      rw [listed i before r small, here.bytes_eq paged small (filled i before r small)]
    rw [dnodeEntryGet, if_neg inside]
    simp only [diEntSize, entry, bad, fault_false]
  · intro filename ino
    generalize run : (dnodeEntrySet s k i filename ino).2 = s'
    rw [dnodeEntrySet, if_neg inside] at run
    simp only [diEntSize, bad] at run
    obtain ⟨ub, sizes, others, listed'⟩ := entrySet_spec here paged entries run
    refine ⟨ub, sizes, fun j within => ?_, others⟩
    rw [loaded] at within
    have bytes := fun r small => listed' s'.d _ (filled j within r small)
    rw [← dnodeListing_bytes] at bytes
    rw [listedEntry, listedEntry, diEnt, diEnt, diEntSize]
    split
    next same =>
      subst same
      rw [← diEntC_window]
      refine Bytes.window_congr fun r small => ?_
      rw [bytes r small, if_pos (by omega), Nat.add_sub_cancel_left, Nat.zero_add]
    next other =>
      refine Bytes.window_congr fun r small => ?_
      rw [bytes r small, if_neg (by omega), listed j within r small]

theorem fnodeIndexed_near (file : isdir (inodeLoad s k) = 0) (near : i < 216) : FnodeIndexed s k i := by
  have loaded := paged.inodeLoad_eq
  rw [loaded] at before file
  have entries : entrySize (s.stores.pool.cell k) = 4 := by rw [entrySize, if_neg (not_not.mpr file), blknumSize]
  have ends : endOf (s.stores.pool.cell k) = 4 * size (s.stores.pool.cell k) := by rw [endOf, entries]
  have fits := paged.fits
  have inside : ¬ (i : Int) ≥ size (inodeLoad s k) := by rw [loaded]; omega
  have positive : ¬ (i : Int) < 0 := by omega
  obtain ⟨bad, c, here⟩ := slotOf_near .file paged entries before near
  have filled : ∀ j < size (s.stores.pool.cell k), ∀ r < 4, Filled (endOf (s.stores.pool.cell k)) (4 * j + r) :=
    fun j within r small => by
      rw [ends] at fits ⊢
      exact filled_entry within fits small
  have listed : ∀ j < size (s.stores.pool.cell k), ∀ r < 4,
      (fnodeListing s k).2.f (4 * j + r) = bytesOf s.stores.pool k (4 * j + r) := fun j within r small => by
    have listed := paged.listing_eq s.f (filled j within r small)
    rw [entries] at listed
    rw [fnodeListing_bytes, listed]
  constructor
  · have entry : (slotOf 24 32 4 s k i).inode.get32 (slotOf 24 32 4 s k i).offset = listedBlock s k i := by
      rw [listedBlock, blknumSize]
      refine Bytes.get32_congr fun r small => ?_
      rw [listed i before r small, here.bytes_eq paged small (filled i before r small)]
    rw [fnodeEntryGet, if_neg inside, if_neg positive]
    simp only [blknumSize, entry, bad, fault_false]
  · intro blknum bound
    generalize run : (fnodeEntrySet s k i blknum).2 = s'
    rw [fnodeEntrySet, if_neg inside] at run
    simp only [blknumSize, bad] at run
    rw [put32_eq_copy] at run
    obtain ⟨ub, sizes, others, listed'⟩ := entrySet_spec here paged entries run
    refine ⟨ub, sizes, fun j within => ?_, others⟩
    rw [loaded] at within
    have bytes := fun r small => listed' s'.f _ (filled j within r small)
    rw [← fnodeListing_bytes] at bytes
    rw [listedBlock, listedBlock, blknumSize]
    split
    next same =>
      subst same
      have value : (Bytes.zero.put32 0 blknum).get32 0 = blknum := by
        rw [Bytes.get32_put32_self, Nat.mod_eq_of_lt bound]
      rw [← value]
      refine Bytes.get32_congr fun r small => ?_
      rw [bytes r small, if_pos (by omega), Nat.add_sub_cancel_left, Nat.zero_add]
    next other =>
      refine Bytes.get32_congr fun r small => ?_
      rw [bytes r small, if_neg (by omega), listed j within r small]

end

/-- Access by index agrees with the listing up to the first 64 entries under
the index pages; the entries behind them are looked for outside the array of
index pages. -/
theorem indexed_iff (paged : Paged s.stores.pool k) (clean : s.ub = false) (before : i < size (inodeLoad s k)) :
    (isdir (inodeLoad s k) ≠ 0 → (DnodeIndexed s k i ↔ i < 102)) ∧
      (isdir (inodeLoad s k) = 0 → (FnodeIndexed s k i ↔ i < 216)) := by
  have inside : ¬ (i : Int) ≥ size (inodeLoad s k) := by omega
  have positive : ¬ (i : Int) < 0 := by omega
  refine ⟨fun dir => ⟨fun indexed => ?_, dnodeIndexed_near paged before dir⟩,
    fun file => ⟨fun indexed => ?_, fnodeIndexed_near paged before file⟩⟩
  · by_contra far
    have get := congrArg (fun r : Bytes × State => r.2.ub) indexed.get
    have bad := slotOf_far (s := s) (k := k) .dir (show 6 + 4 * 8 + 64 ≤ i by omega)
    rw [dnodeEntryGet, if_neg inside] at get
    simp [diEntSize, bad, State.fault, clean] at get
  · by_contra far
    have get := congrArg (fun r : Nat × State => r.2.ub) indexed.get
    have bad := slotOf_far (s := s) (k := k) .file (show 24 + 4 * 32 + 64 ≤ i by omega)
    rw [fnodeEntryGet, if_neg inside, if_neg positive] at get
    simp [blknumSize, bad, State.fault, clean] at get

theorem Owned.paged {L : Set Nat} (owned : Owned L p) (live : k ∈ L) : Paged p k where
  inj c c' holds holds' same := (owned.inj k live k live c c' holds holds' same).2
  range c holds := owned.range k live c holds
  fits := owned.fits k live

/-- The root after it has been given 103 entries. -/
theorem root_entries {s : State} (run : dnodeListingSet (sfsInit Bytes.zero) 2 103 = s) :
    Paged s.stores.pool 2 ∧ s.ub = false ∧ isdir (inodeLoad s (2 : Nat)) ≠ 0 ∧ size (inodeLoad s (2 : Nat)) = 103 := by
  have initial := sfsInit_initial Bytes.zero
  have clean := sfsInit_ub Bytes.zero
  generalize sfsInit Bytes.zero = s₀ at *
  have good := initial.good
  have dir := good.tree.top.dir
  have entries : entrySize (s₀.stores.pool.cell 2) = 16 := by rw [entrySize, if_pos dir, diEntSize]
  have spare := initial.spare
  have within : ¬ (103 : Int) ≥ DENTRY_MAX_SIZE := by decide
  rw [dnodeListingSet, if_neg within] at run
  replace run : listingSet (entrySize (s₀.stores.pool.cell 2)) s₀.d s₀ 2 (103 : Nat) = s := by
    rw [entries]
    exact run
  have pages := pageCount_le (entrySize (s₀.stores.pool.cell 2) * 103) (endOf (s₀.stores.pool.cell 2))
  obtain ⟨quiet, _, resized, _, _, owned⟩ := good.owned.listingSet_spec good.tree.root run (by rw [entries]; decide)
    (Or.inr (by omega))
  have paged := owned.paged good.tree.root
  have loaded := paged.inodeLoad_eq
  have dir' : isdir (s.stores.pool.cell 2) ≠ 0 := by
    rw [resized.isdir_eq]
    exact dir
  exact ⟨paged, quiet.ub_eq.trans clean, by rw [loaded]; exact dir', by rw [loaded, resized.size]⟩

/-- In a directory of 103 entries the one before the last is found, on a leaf page of its index page. -/
theorem indexed_root : ∃ s, s = dnodeListingSet (sfsInit Bytes.zero) 2 103 ∧ DnodeIndexed s 2 101 := by
  refine ⟨_, rfl, ?_⟩
  generalize run : dnodeListingSet (sfsInit Bytes.zero) 2 103 = s
  obtain ⟨paged, clean, dir, rows⟩ := root_entries run
  exact ((indexed_iff paged clean (by rw [rows]; decide)).1 dir).mpr (by decide)

/-- A directory of 103 entries is read outside its array of index pages. -/
theorem dnodeEntryGet_outside : ∃ s, s = dnodeListingSet (sfsInit Bytes.zero) 2 103 ∧ Paged s.stores.pool 2 ∧
    s.ub = false ∧ isdir (inodeLoad s (2 : Nat)) ≠ 0 ∧ 102 < size (inodeLoad s (2 : Nat)) ∧ ¬ DnodeIndexed s 2 102 := by
  refine ⟨_, rfl, ?_⟩
  generalize run : dnodeListingSet (sfsInit Bytes.zero) 2 103 = s
  obtain ⟨paged, ub, dir, rows⟩ := root_entries run
  refine ⟨paged, ub, dir, by rw [rows]; decide, fun indexed => ?_⟩
  have get := congrArg (fun r : Bytes × State => r.2.ub) indexed.get
  have bad := slotOf_far (s := s) (k := 2) .dir (show 6 + 4 * 8 + 64 ≤ 102 by decide)
  have inside : ¬ ((102 : Nat) : Int) ≥ size (inodeLoad s (2 : Nat)) := by
    rw [rows]
    decide
  rw [dnodeEntryGet, if_neg inside] at get
  simp only [diEntSize, State.fault, ub, bad] at get
  exact absurd get (by decide)

end Sfs
