import Mathlib.Order.Interval.Finset.Nat
import Sfs.FileStep
import Sfs.Init
import Sfs.Namei

namespace Sfs

/-- A state between two requests. `L` are the inodes of files and directories,
and `fl` is the list of free blocks. -/
structure Good (s : State) (L : Set Nat) (fl : List Nat) : Prop where
  owned : Owned L s.stores.pool
  tree : Tree L s.stores.pool
  list : FreeList s.stores fl
  blocks : FileBlocks L s.stores.pool fl
  count : freeBlockSize s.stores.sup = fl.length
  synced : Synced s
  errno : s.errno = 0
  sound : ∀ c ∈ s.trace, c.Sound

/-- File `m` is as it was. -/
structure Kept (s s' : State) (m : Nat) : Prop where
  same : Same s.stores.pool s'.stores.pool m
  data : ∀ b ∈ blocksOf s.stores.pool m, s'.stores.data b = s.stores.data b

variable {L : Set Nat} {s s' s'' : State} {p p' : Pool Bytes} {fl fl' : List Nat} {k m n : Nat} {c : List UInt8}

theorem Traced.sounds (traced : Traced s s') (sound : ∀ c ∈ s.trace, c.Sound) : ∀ c ∈ s'.trace, c.Sound :=
  fun c member => (traced.sound c member).elim (sound c) id

/-- A new directory has only its two special entries. -/
theorem child_dnodeImage {q : Nat} (image : p.cell k = (dnodeImage q n).take 128) : child p k c = none := by
  have ok : DirOk p k := dirOk_dnodeImage image
  have two : size (p.cell k) = 2 := by
    rw [image, size, Bytes.get16_take (by omega)]
    exact size_dnodeImage
  cases step : child p k c with
  | none => rfl
  | some m =>
    obtain ⟨_, notDot, notDotdot, found⟩ := child_some step
    obtain ⟨j, within, name, _⟩ := (Table.find_some ok.distinct).mp found
    replace within : j < 2 := by rwa [dirTable, two] at within
    replace name : entName p k j = c := name
    rcases (by omega : j = 0 ∨ j = 1) with rfl | rfl
    · exact absurd (name.symm.trans ok.dot) notDot
    · exact absurd (name.symm.trans ok.dotdot) notDotdot

/-- The root directory as it is set up takes up one inode. -/
theorem marked_root (root : p.cell 2 = (dnodeImage 2 2).take 128) (used : p.free 2 = false) : Marked {2} p := by
  have ok : DirOk p 2 := dirOk_dnodeImage root
  have two : size (p.cell 2) = 2 := by
    rw [root, size, Bytes.get16_take (by omega)]
    exact size_dnodeImage
  have short : endOf (p.cell 2) = 32 := by rw [endOf_dir ok.dir, two, diEntSize]
  have noPages : ∀ c, Holds (p.cell 2) c → c = 264 := by
    rintro c (self | wants)
    · exact self
    · have before := wants.2
      rw [short, pagePtr] at before
      split at before <;> omega
  refine ⟨?_, ?_, ?_, ?_⟩
  · rintro k rfl k' rfl c c' holds holds' _
    exact ⟨rfl, (noPages c holds).trans (noPages c' holds').symm⟩
  · rintro k rfl c holds
    rw [noPages c holds, placeNo_self]
    omega
  · rintro k rfl c holds
    rw [noPages c holds, placeNo_self, used]
  · rintro k rfl
    rw [root, ino, Bytes.get16_take (by omega)]
    exact ino_dnodeImage (by omega)

theorem Initial.root_end (initial : Initial s) : endOf (s.stores.pool.cell 2) = 32 := by
  have two : size (s.stores.pool.cell 2) = 2 := by
    rw [initial.root, size, Bytes.get16_take (by omega)]
    exact size_dnodeImage
  rw [endOf_dir (dirOk_dnodeImage initial.root).dir, two, diEntSize]

theorem Initial.spare (initial : Initial s) : s.stores.pool.freeCount 1024 = 1021 := by
  have free : (Finset.range 1024).filter (s.stores.pool.free · = true) = Finset.Ico 3 1024 := by
    ext q
    simp only [Finset.mem_filter, Finset.mem_range, initial.free, decide_eq_true_eq, Finset.mem_Ico]
    omega
  rw [Pool.freeCount, free, Nat.card_Ico]

theorem Initial.good (initial : Initial s) : Good s {2} (List.range' 1025 31743) := by
  have ok : DirOk s.stores.pool 2 := dirOk_dnodeImage initial.root
  have short := initial.root_end
  have noChild : ∀ c m, child s.stores.pool 2 c ≠ some m := fun c m step => by
    rw [child_dnodeImage initial.root] at step
    exact Option.some_ne_none m step.symm
  have used : s.stores.pool.free 2 = false := by
    rw [initial.free]
    rfl
  refine ⟨⟨⟨marked_root initial.root used, fun q free => ?_⟩, ?_⟩, ⟨rfl, ok, ?_, ?_, ?_⟩, initial.list, ⟨?_, ?_, ?_⟩,
    by rw [initial.count, List.length_range']; rfl, initial.synced, initial.errno, fun c member => ?_⟩
  · rw [initial.free, decide_eq_true_iff] at free
    omega
  · rintro k rfl
    omega
  · rintro k rfl _
    exact Or.inl ok
  · rintro k rfl c m step
    exact absurd step (noChild c m)
  · rintro k rfl _ _ c _ m step
    exact absurd step (noChild c m)
  · rintro k rfl file
    exact absurd file ok.dir
  · rintro k rfl file
    exact absurd file ok.dir
  · rintro k rfl _ _ file
    exact absurd file ok.dir
  · rcases initial.trace c member with rfl | ⟨r, _, rfl⟩
    · exact ⟨by omega, by omega⟩
    · trivial

theorem Good.glance (good : Good s L fl) (glance : Glance s s') : Good s' L fl := by
  obtain ⟨owned, tree, list, blocks, count, synced, errno, sound⟩ := good
  rw [← glance.stores_eq] at owned tree list blocks count
  exact ⟨owned, tree, list, blocks, count, glance.synced synced, glance.errno_eq.trans errno,
    glance.traced.sounds sound⟩

namespace Kept

theorem of_stores (same : s'.stores = s.stores) (m : Nat) : Kept s s' m := by
  refine ⟨?_, fun b _ => by rw [same]⟩
  rw [same]
  exact .refl _ m

theorem trans (first : Kept s s' m) (second : Kept s' s'' m) (file : isdir (s.stores.pool.cell m) = 0)
    (fits : endOf (s.stores.pool.cell m) ≤ 33376) : Kept s s'' m := by
  refine ⟨first.same.trans second.same, fun b member => ?_⟩
  rw [second.data b ?_, first.data b member]
  rwa [first.same.blocksOf_eq file fits]

end Kept

namespace Repaged

variable {f : Bytes} (repaged : Repaged L p p' k n f) (owned : Owned L p) (tree : Tree L p) (live : k ∈ L)
  (file : isdir (p.cell k) = 0)

include repaged owned live

theorem isdir_eq (live' : m ∈ L) : isdir (p'.cell m) = isdir (p.cell m) := by
  by_cases here : m = k
  · rw [here, repaged.resized.isdir_eq]
  · rw [(repaged.same owned live live' here).cell_eq]

include tree file

theorem child_eq (live' : m ∈ L) : child p' m c = child p m c := by
  by_cases here : m = k
  · subst here
    rw [child_file file, child_file (by rw [repaged.resized.isdir_eq]; exact file)]
  · exact (repaged.same owned live live' here).child_eq (owned.fits m live') (tree.dirs m live')

/-- The list of a file is not part of the tree. -/
theorem tree_kept : Tree L p' := by
  have ok : ∀ m ∈ L, isdir (p.cell m) ≠ 0 → DirOk p m → DirOk p' m := fun m live' dir ok => by
    have ne : m ≠ k := by
      rintro rfl
      exact dir file
    exact ok.congr (repaged.same owned live live' ne) (owned.fits m live')
  refine tree.shrink tree.root (ok 2 tree.root tree.top.dir tree.top) (fun m live' dir => ?_) fun m live' c i hit => ?_
  · have ne : m ≠ k := by
      rintro rfl
      rw [repaged.isdir_eq owned live live'] at dir
      exact dir file
    rw [repaged.isdir_eq owned live live'] at dir
    refine (tree.dirs m live' dir).imp (ok m live' dir) fun empty => ?_
    rw [(repaged.same owned live live' ne).cell_eq, empty]
  · rw [repaged.child_eq owned tree live file live'] at hit
    obtain ⟨liveI, _, okI⟩ := tree.closed m live' c i hit
    refine ⟨live', hit, liveI, fun dir => ?_⟩
    rw [repaged.isdir_eq owned live liveI] at dir
    exact ok i liveI dir (okI dir)

end Repaged

namespace FileStep

variable (step : FileStep L s s' k n fl fl')

include step

theorem child_eq (good : Good s L fl) (live : k ∈ L) (file : isdir (s.stores.pool.cell k) = 0) (live' : m ∈ L) :
    child s'.stores.pool m c = child s.stores.pool m c := by
  obtain ⟨f, repaged⟩ := step.repaged
  exact repaged.child_eq good.owned good.tree live file live'

/-- The other nodes are as they were. -/
theorem kept (good : Good s L fl) (live : k ∈ L) (file : isdir (s.stores.pool.cell k) = 0) (live' : m ∈ L)
    (file' : isdir (s.stores.pool.cell m) = 0) (ne : m ≠ k) : Kept s s' m := by
  obtain ⟨f, repaged⟩ := step.repaged
  refine ⟨repaged.same good.owned live live' ne, fun b member => step.data b (fun held => ?_) fun free => ?_⟩
  · exact good.blocks.apart m live' k live file' file ne member held
  · exact List.disjoint_of_nodup_append (good.blocks.nodup m live' file') member free

theorem isdir_eq (good : Good s L fl) (live : k ∈ L) (live' : m ∈ L) :
    isdir (s'.stores.pool.cell m) = isdir (s.stores.pool.cell m) := by
  obtain ⟨f, repaged⟩ := step.repaged
  exact repaged.isdir_eq good.owned live live'

theorem good (good : Good s L fl) (live : k ∈ L) (file : isdir (s.stores.pool.cell k) = 0)
    (errno : s'.errno = 0) : Good s' L fl' := by
  obtain ⟨f, repaged⟩ := step.repaged
  refine ⟨repaged.owned, repaged.tree_kept good.owned good.tree live file, step.list,
    good.blocks.move live file good.list.area (fun m live' ne file' => ?_) step.moved,
    step.count good.count, step.synced good.synced, errno, step.traced.sounds good.sound⟩
  have untouched := repaged.same good.owned live live' ne
  rw [step.isdir_eq good live live'] at file'
  exact ⟨file', untouched.blocksOf_eq file' (good.owned.fits m live')⟩

end FileStep

end Sfs
