import Sfs.Access
import Sfs.Serve
import Sfs.WellFormed

namespace Sfs

/-- A new file system with one empty file, number `k` under the name `c`. -/
structure FirstFile (s : State) (k : Nat) (c : List UInt8) : Prop where
  good : Good s (insert k {2}) (List.range' 1025 31743)
  leads : child s.stores.pool 2 c = some k
  plain : Plain c
  inode : s.stores.pool.cell k = (fnodeImage k 2).take 128
  spare : s.stores.pool.freeCount 1024 = 1020

variable {L : Set Nat} {s s' : State} {p p' : Pool Bytes} {fl : List Nat} {k m n q i : Nat} {c : List UInt8}
  {disk tail buf : Bytes}

theorem Good.wellFormed (good : Good s L fl) (covered : ∀ k ∈ L, isdir (s.stores.pool.cell k) = 0 →
    fsize (s.stores.pool.cell k) ≤ 512 * size (s.stores.pool.cell k)) : WellFormed L s fl :=
  ⟨⟨good.owned, good.list, good.blocks, covered⟩, good.count⟩

/-- A node in the root directory is found under its name. -/
theorem Good.found_top (good : Good s L fl) (plain : Plain c) (leads : child s.stores.pool 2 c = some k) :
    (pathToInum s (render [c])).1.inum = k := by
  obtain ⟨s', found, _⟩ := pathToInum_spec [] good.owned good.tree (by simp) plain rfl good.tree.top.dir
  rw [leads] at found
  rw [List.nil_append] at found
  rw [found]
  rfl

theorem pageCount_le (ptrEnd cacheEnd : Nat) : pageCount ptrEnd cacheEnd ≤ 264 :=
  (Finset.card_filter_le _ _).trans (Finset.card_range 264).le

/-- A listing within the inode takes up no pages. -/
theorem not_wants_inline {ptrEnd c : Nat} (inline : ptrEnd ≤ 96) : ¬ Wants ptrEnd c := by
  rintro ⟨_, before⟩
  simp only [pagePtr] at before
  split at before <;> omega

theorem pageCount_inline {ptrEnd cacheEnd : Nat} (inline : ptrEnd ≤ 96) : pageCount ptrEnd cacheEnd = 0 := by
  refine Finset.card_eq_zero.mpr (Finset.filter_eq_empty_iff.mpr fun c _ both => ?_)
  exact not_wants_inline inline both.1

theorem Resized.free_inline {ptrEnd cacheEnd : Nat} (resized : Resized p p' k ptrEnd n buf cacheEnd)
    (inline : ptrEnd ≤ 96) (was : cacheEnd ≤ 96) : p'.free = p.free := by
  funext q
  have same : p'.free q = true ↔ p.free q = true := by
    rw [resized.free]
    constructor
    · rintro (⟨free, _⟩ | ⟨c, freed, _⟩)
      · exact free
      · exact absurd freed.1 (not_wants_inline was)
    · exact fun free => Or.inl ⟨free, fun c wants => absurd wants (not_wants_inline inline)⟩
  cases new : p'.free q <;> cases old : p.free q <;> simp_all

/-- The first request on a new file system makes an empty file, under the first 13 bytes of its name. -/
theorem create_made (disk tail : Bytes) (plain : Plain c) : ∃ k, (sfsCreate (sfsInit disk) (render [c]) tail).1 = 0 ∧
    (sfsCreate (sfsInit disk) (render [c]) tail).2.errno = 0 ∧
    Made {2} (sfsInit disk) (sfsCreate (sfsInit disk) (render [c]) tail).2 k 2 ((fnodeImage k 2).take 128) (c.take 13) := by
  have initial := sfsInit_initial disk
  have good := initial.good
  have spare := initial.spare
  have root := initial.root_end
  have empty := child_dnodeImage (c := c) initial.root
  have ok : DirOk (sfsInit disk).stores.pool 2 := good.tree.top
  generalize sfsInit disk = s at *
  obtain ⟨s₁, found, glance, _⟩ := pathToInum_spec [] good.owned good.tree (by simp) plain rfl ok.dir
  rw [empty, List.nil_append] at found
  have name : basename (render [c]) = c := basename_render (q := []) plain.noSlash
  have same := glance.stores_eq
  have two : size (s.stores.pool.cell 2) = 2 := by
    rw [endOf_dir ok.dir, diEntSize] at root
    omega
  have need : linkNeed s₁.stores.pool 2 ≤ s₁.stores.pool.freeCount 1024 := by
    rw [same, spare, linkNeed, two]
    decide
  rw [sfsCreate_absent tail found name (by omega)]
  generalize outcome : newNode s₁ (fnodeImage · 2) 2 (Bytes.cstr c tail) = o
  obtain ⟨r, s'⟩ := o
  obtain ⟨k, _, zero, errno, made, _⟩ := newNode_spec (good.glance glance) good.tree.root (by rw [same]; exact ok) plain.noNul
    (by rw [same, two]; decide) (fun q => fnodeImage_place) outcome (Or.inr need)
  exact ⟨k, zero, errno, made.of_glance glance⟩

theorem create_firstFile (disk tail : Bytes) (plain : Plain c) (short : c.length ≤ 13) :
    ∃ k, FirstFile (step (sfsInit disk) (.create (render [c]) tail)) k c := by
  have initial := sfsInit_initial disk
  have good := initial.good
  have spare := initial.spare
  have root := initial.root_end
  have empty := child_dnodeImage (c := c) initial.root
  have ok : DirOk (sfsInit disk).stores.pool 2 := good.tree.top
  obtain ⟨k, _, errno, made⟩ := create_made disk tail plain
  rw [step, Op.run]
  generalize sfsInit disk = s at *
  generalize (sfsCreate s (render [c]) tail).2 = s' at *
  have two : size (s.stores.pool.cell 2) = 2 := by
    rw [endOf_dir ok.dir, diEntSize] at root
    omega
  rw [List.take_of_length_le short] at made
  have absent := empty
  rw [child_dir ok.dir plain.notDot plain.notDotdot] at absent
  have leads := made.child_parent (c := c) good good.tree.root ok absent plain.notDot plain.notDotdot
  rw [if_pos rfl] at leads
  refine ⟨k, made.good good good.tree.root ok absent plain.nonempty short plain.notDot plain.notDotdot
    fnodeImage_fresh.1 errno, leads, plain, made.node good good.tree.root, ?_⟩
  obtain ⟨buf, repaged⟩ := made.repaged
  have cell := ((made.owned₁ good).2 2 good.tree.root).cell_eq
  have ends : endOf (((s.stores.pool.take k).write k ((fnodeImage k 2).take 128)).cell 2) ≤ 96 := by
    rw [cell, root]
    omega
  have entry : entrySize (((s.stores.pool.take k).write k ((fnodeImage k 2).take 128)).cell 2) * 3 ≤ 96 := by
    rw [cell, entrySize, if_pos ok.dir, diEntSize]
    omega
  have resized := repaged.resized
  rw [two] at resized
  have free := resized.free_inline entry ends
  have count := Pool.take_freeCount made.free made.upper
  rw [Pool.freeCount, free, Pool.write_free]
  rw [Pool.freeCount, spare] at count
  omega

namespace FirstFile

variable (first : FirstFile s k c)

include first

omit first in
theorem live : k ∈ insert k ({2} : Set Nat) := Set.mem_insert _ _

theorem file : isdir (s.stores.pool.cell k) = 0 := by
  rw [first.inode]
  exact fnodeImage_fresh.2

theorem rows : size (s.stores.pool.cell k) = 0 := by
  rw [first.inode]
  exact (Bytes.get16_take (by omega)).trans size_fnodeImage

theorem bytes : fsize (s.stores.pool.cell k) = 0 := by
  rw [first.inode, fsize, Bytes.get32_take (by omega), ← Bytes.get32_zero (a := 8)]
  exact Bytes.get32_congr fun j hj => fnodeImage_apply (by omega)

/-- The entries in the inode are zero. -/
theorem entry (within : i < 24) : blockNo s.stores.pool k i = 0 := by
  rw [blockNo, ← Bytes.get32_zero (a := blknumSize * i)]
  refine Bytes.get32_congr fun j hj => ?_
  rw [blknumSize, bytesOf_inline (by omega), first.inode, Bytes.take_apply_of_lt (by omega)]
  exact fnodeImage_apply (by omega)

theorem glance (glance : Glance s s') : FirstFile s' k c := by
  obtain ⟨good, leads, plain, inode, spare⟩ := first
  rw [← glance.stores_eq] at leads inode spare
  exact ⟨good.glance glance, leads, plain, inode, spare⟩

theorem wellFormed : WellFormed (insert k {2}) s (List.range' 1025 31743) := by
  refine first.good.wellFormed fun m live file => ?_
  rcases live with rfl | rfl
  · rw [first.bytes]
    omega
  · exact absurd file first.good.tree.top.dir

theorem found : (pathToInum s (render [c])).1.inum = k := first.good.found_top first.plain first.leads

end FirstFile

/-- The state after `/a` has been created on a new file system. -/
def firstState : State := step (sfsInit Bytes.zero) (.create (render [[97]]) Bytes.zero)

theorem firstState_firstFile : ∃ k, FirstFile firstState k [97] :=
  create_firstFile Bytes.zero Bytes.zero ⟨by decide, by decide, by decide, by decide, by decide⟩ (by decide)

end Sfs
