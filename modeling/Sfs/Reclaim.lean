import Sfs.DirMap
import Sfs.Shrink
import Sfs.Unlink

namespace Sfs

/-- File `k` is gone, and what it owned is free. -/
structure Reclaimed (L : Set Nat) (s s' : State) (k : Nat) (fl : List Nat) : Prop where
  accounted : Accounted (L \ {k}) s' ((blocksOf s.stores.pool k).reverse ++ fl)
  number : freeBlockSize s'.stores.sup = int32 (freeBlockSize s.stores.sup + (blocksOf s.stores.pool k).length)
  count : freeBlockSize s.stores.sup = fl.length →
    freeBlockSize s'.stores.sup = freeBlockSize s.stores.sup + (blocksOf s.stores.pool k).length
  inode : s'.stores.pool.free k = true
  pages : ∀ c, Wants (endOf (s.stores.pool.cell k)) c →
    s'.stores.pool.free (pageNo s.stores.pool.cell (s.stores.pool.cell k) c) = true
  others : ∀ j ∈ L, j ≠ k → isdir (s.stores.pool.cell j) = 0 → Kept s s' j

/-- Directory `k` has been cut, and no inode has been acquired. -/
structure Shortened (L : Set Nat) (s s' : State) (k : Nat) : Prop where
  rest : s'.stores = s.stores.setPool s'.stores.pool
  marked : Marked L s'.stores.pool
  same : ∀ j ∈ L, j ≠ k → Same s.stores.pool s'.stores.pool j
  isdir : isdir (s'.stores.pool.cell k) = isdir (s.stores.pool.cell k)
  ends : endOf (s'.stores.pool.cell k) ≤ endOf (s.stores.pool.cell k)
  free : ∀ q, s.stores.pool.free q = true → s'.stores.pool.free q = true

variable {L : Set Nat} {s s' t : State} {p p' : Pool Bytes} {fl : List Nat} {k j n : Nat} {m : List UInt8 → Option Nat}
  {buf : Bytes}

theorem shortened_of_disk (marked : Marked L s.stores.pool) (disk : s'.disk = s.disk) : Shortened L s s' k := by
  have same := stores_congr disk
  exact ⟨by rw [same]; rfl, by rwa [same], fun j _ _ => by rw [same]; exact .refl _ _, by rw [same], by rw [same],
    fun q free => by rwa [same]⟩

theorem dnodeRemove_shortened (marked : Marked L s.stores.pool) (live : k ∈ L) (rep : Represents s k m) (filename : Bytes) :
    Shortened L s (dnodeRemove s k filename) k := by
  have range := marked.node_range live
  have cell : s.slots.cell k = s.stores.pool.cell k := slots_cell (by omega)
  rcases dnodeRemove_cases marked live rep filename with ⟨_, disk⟩ | ⟨n, r, d, v, positive, _, rows, _, _, fits, run⟩
  · exact shortened_of_disk marked disk
  have dir := rep.dir
  rw [inodeLoad_cell (by omega) (by omega)] at dir
  rw [cell] at rows
  have start : ({ s with d } : State).stores = s.stores := stores_congr rfl
  have entry : entrySize (s.stores.pool.cell k) = diEntSize := if_pos dir
  rw [run]
  generalize mid : dnodeListingSet { s with d } k (n - 1 : Nat) = s₁
  generalize { s with d } = s₀ at *
  rw [dnodeListingSet_eq (by omega)] at mid
  have marked₀ : Marked L s₀.stores.pool := by rwa [start]
  have shrinks : diEntSize * (n - 1) ≤ endOf (s.stores.pool.cell k) := by
    rw [endOf_dir dir, rows]
    exact Nat.mul_le_mul_left _ (by omega)
  rw [← start] at entry shrinks
  rw [← entry] at mid shrinks
  have spec := marked₀.listingSet_stores live mid (by omega) (.of_le shrinks) (Or.inr shrinks)
  rw [start] at spec shrinks
  obtain ⟨_, stores, resized, ends, _, marked₁⟩ := spec
  have loaded : inodeLoad s₁ k = s₁.stores.pool.cell k := inodeLoad_cell (by omega) (by omega)
  have header : ∀ o, o < 6 ∨ 12 ≤ o → (setNlink (s₁.stores.pool.cell k) v).take 128 o = s₁.stores.pool.cell k o :=
    fun o out => by
      have byte := congrFun (cell_take (s := s₁) k) o
      simp only [Bytes.take] at byte ⊢
      rwa [setNlink_apply out]
  obtain ⟨marked', others, ends', _⟩ := marked₁.header live header
  have dumped := stores_inodeDump (s := s₁) (k := k) (x := setNlink (s₁.stores.pool.cell k) v) (by omega) (by omega)
  rw [loaded]
  generalize inodeDump s₁ k (setNlink (s₁.stores.pool.cell k) v) = s' at *
  have pool : s'.stores.pool = s₁.stores.pool.write k ((setNlink (s₁.stores.pool.cell k) v).take 128) := by
    rw [dumped, Stores.setPool_pool]
  refine ⟨?_, by rwa [pool], fun j live' ne => ?_, ?_, ?_, fun q free => ?_⟩
  · rw [dumped]
    exact Stores.setPool_rest _ stores
  · rw [pool]
    exact (resized.same marked live rfl live' ne).trans (others j live' ne)
  · rw [pool, Pool.write_cell_self, ← resized.isdir_eq]
    exact header 12 (by omega)
  · rw [pool, Pool.write_cell_self, ends', ends]
    exact shrinks
  · rw [pool, Pool.write_free]
    exact resized.free_shrink marked live shrinks free

/-- A directory is the same map when its places are the same. -/
theorem Represents.same (rep : Represents s k m) (marked : Marked L s.stores.pool) (live : k ∈ L)
    (same : Same s.stores.pool s'.stores.pool k) : Represents s' k m := by
  have range := marked.node_range live
  have loaded : inodeLoad s k = s.slots.cell k := inodeLoad_slot (by omega)
  have dir := rep.dir
  have room := rep.room
  have rows := dnodeListing_rows s k
  rw [loaded] at dir rows
  have slots : Same s.slots s'.slots k := fun c holds => by
    have lower := (marked.slots.range k live c holds).1
    have old := (above_slots s).same marked.slots live
    have holds' := holds
    rw [← old.cell_eq] at holds'
    have cells := same c holds'
    rw [old.placeNo_eq holds, old c holds] at cells
    rw [← cells, slots_cell (by omega)]
  have cell' : inodeLoad s' k = s.slots.cell k := by rw [inodeLoad_slot (by omega), slots.cell_eq]
  obtain ⟨count, bytes⟩ := marked.slots.dnodeListing_same live slots dir (by rw [← rows]; exact room)
  refine rep.congr (by rwa [cell']) ⟨count, fun i before => rowsOf_congr fun o within => bytes _ ?_⟩
  replace before : i < (dnodeListing s k).1 := before
  simp only [diEntSize]
  omega

/-- The part of `sfs_unlink` that works on file `k` in directory `n`. -/
theorem unlinkNode_reclaims (acc : Accounted L s fl) (live : k ∈ L) (file : isdir (s.stores.pool.cell k) = 0)
    (liveN : n ∈ L) (rep : Represents s n m) (run : unlinkNode s k n buf = s') : Reclaimed L s s' k fl := by
  have range := acc.marked.node_range live
  have rangeN := acc.marked.node_range liveN
  have dir := rep.dir
  rw [inodeLoad_cell (by omega) (by omega)] at dir
  have ne : n ≠ k := by
    rintro rfl
    exact dir file
  rw [unlinkNode] at run
  generalize firstIs : fstreamFree s k (0 : Nat) = s₁ at run
  obtain ⟨⟨marked₁, _, size₁, _, same₁, list, data, number, free, pages⟩, again⟩ :=
    fstreamFree_dropped acc live file (Nat.zero_le _) firstIs
  simp only [List.drop_zero] at list data number
  generalize fnodeListingSet s₁ k (0 : Nat) = s₂ at run again
  have stores₂ := stores_congr again
  have stores₃ := stores_freeInodePush (s := s₂) range.1 (show k < 4096 by omega)
  generalize freeInodePush s₂ k = s₃ at *
  rw [stores₂] at stores₃
  have pool₃ : s₃.stores.pool = s₁.stores.pool.give k := by rw [stores₃, Stores.setPool_pool]
  have marked₃ : Marked (L \ {k}) s₃.stores.pool := by
    rw [pool₃]
    exact marked₁.give live
  have same₃ : ∀ j ∈ L, j ≠ k → Same s.stores.pool s₃.stores.pool j := fun j live' ne' =>
    (same₁ j live' ne').trans fun c _ => by rw [pool₃, Pool.give_cell]
  have liveN₃ : n ∈ L \ {k} := ⟨liveN, ne⟩
  have shortened := dnodeRemove_shortened marked₃ liveN₃ (rep.same acc.marked liveN (same₃ n liveN ne)) buf
  rw [run] at shortened
  obtain ⟨rest, marked, same, isdirN, ends, free'⟩ := shortened
  have dirN : isdir (s'.stores.pool.cell n) ≠ 0 := by
    rw [isdirN, (same₃ n liveN ne).cell_eq]
    exact dir
  have sup : s'.stores.sup = s₁.stores.sup := by rw [rest, Stores.setPool_sup, stores₃, Stores.setPool_sup]
  have data' : s'.stores.data = s₁.stores.data := by rw [rest, Stores.setPool_data, stores₃, Stores.setPool_data]
  have given : ∀ q, s₁.stores.pool.free q = true → s'.stores.pool.free q = true := fun q was =>
    free' q (by rw [pool₃]; exact (Pool.give_free_iff _).mpr (Or.inl was))
  have others : ∀ j ∈ L, j ≠ k → j ≠ n → Same s.stores.pool s'.stores.pool j := fun j live' ne' notN =>
    (same₃ j live' ne').trans (same j ⟨live', ne'⟩ notN)
  have emptied : blocksOf s₁.stores.pool k = [] := by rw [blocksOf, size₁]; rfl
  have blocks₁ : FileBlocks L s₁.stores.pool ((blocksOf s.stores.pool k).reverse ++ fl) := by
    refine acc.blocks.move live file acc.list.area (fun j live' ne' file' => ?_) ?_
    · rw [(same₁ j live' ne').cell_eq] at file'
      exact ⟨file', (same₁ j live' ne').blocksOf_eq file' (acc.fits j live')⟩
    · rw [emptied]
      exact (List.reverse_perm _).append_right fl
  refine ⟨⟨marked, fun j member => ?_, list.congr sup fun b _ => by rw [data'], ?_⟩, by rw [sup, number], fun counted => ?_,
    free' k (by rw [pool₃]; exact (Pool.give_free_iff _).mpr (Or.inr rfl)), fun c wants => given _ (pages c
      ⟨wants, fun still => absurd still.2 (Nat.not_lt_zero _), fun _ => Nat.zero_le _⟩),
    fun j live' ne' file' => ?_⟩
  · by_cases here : j = n
    · subst here
      refine ends.trans ?_
      rw [(same₃ j liveN ne).cell_eq]
      exact acc.fits j liveN
    · rw [(others j member.1 member.2 here).cell_eq]
      exact acc.fits j member.1
  · have blocks₂ : FileBlocks (L \ {k}) s₁.stores.pool _ := blocks₁.mono Set.sdiff_subset
    refine blocks₂.congr list.nodup fun j member file' => Or.inl ?_
    have notN : j ≠ n := by
      rintro rfl
      exact dirN file'
    have file₀ := file'
    rw [(others j member.1 member.2 notN).cell_eq] at file₀
    have fits := acc.fits j member.1
    refine ⟨member, ?_, ?_⟩
    · rw [(same₁ j member.1 member.2).cell_eq]
      exact file₀
    · rw [(others j member.1 member.2 notN).blocksOf_eq file₀ fits,
        (same₁ j member.1 member.2).blocksOf_eq file₀ fits]
  · have bound := list.length_le
    rw [List.length_append, List.length_reverse] at bound
    rw [sup, number, counted, int32_of_mem (by omega) (by omega)]
  · have notN : j ≠ n := by
      rintro rfl
      exact dir file'
    refine ⟨others j live' ne' notN, fun b member => ?_⟩
    rw [data']
    exact data b fun held => acc.blocks.apart j live' k live file' file ne' member held

/-- Unlinking a file gives back its blocks, its inode and its pages. -/
theorem sfsUnlink_reclaims {path : CPath} {tail : Bytes} (acc : Accounted L s fl) (live : k ∈ L)
    (file : isdir (s.stores.pool.cell k) = 0) (liveN : n ∈ L) (rep : Represents s n m)
    (found : (pathToInum s path).1 = ⟨k, n⟩) :
    (sfsUnlink s path tail).1 = 0 ∧ Reclaimed L s (sfsUnlink s path tail).2 k fl := by
  have range := acc.marked.node_range live
  have short : ushort k = k := ushort_nat (by omega)
  have glance := pathToInum_glance s path
  have run : sfsUnlink s path tail =
      (0, unlinkNode (pathToInum s path).2 k n (Bytes.cstr (basename path) tail)) := by
    simp only [sfsUnlink, found, short, unlinkNode]
    exact if_neg (by omega)
  rw [run]
  generalize (pathToInum s path).2 = s₁ at glance
  have same := glance.stores_eq
  have acc₁ : Accounted L s₁ fl := acc.of_stores same
  have rep₁ : Represents s₁ n m := rep.same acc.marked liveN (by rw [same]; exact .refl _ _)
  rw [← same] at file
  generalize endIs : unlinkNode s₁ k n (Bytes.cstr (basename path) tail) = s'
  obtain ⟨accounted, number, count, inode, pages, others⟩ := unlinkNode_reclaims acc₁ live file liveN rep₁ endIs
  rw [same] at accounted number count pages others
  exact ⟨rfl, accounted, number, count, inode, pages, fun j live' ne file' =>
    ⟨by rw [← same]; exact (others j live' ne file').same, by rw [← same]; exact (others j live' ne file').data⟩⟩

/-- The file `/a` of 13000 bytes is unlinked, which has 26 blocks and a page for its list. -/
theorem sfsUnlink_reclaims_written : ∃ k fl,
    size ((step firstState (.write (render [[97]]) Bytes.zero 13000 0)).stores.pool.cell k) = 26 ∧
    (sfsUnlink (step firstState (.write (render [[97]]) Bytes.zero 13000 0)) (render [[97]]) Bytes.zero).1 = 0 ∧
    Reclaimed (insert k {2}) (step firstState (.write (render [[97]]) Bytes.zero 13000 0))
      (sfsUnlink (step firstState (.write (render [[97]]) Bytes.zero 13000 0)) (render [[97]]) Bytes.zero).2 k fl := by
  obtain ⟨k, first⟩ := firstState_firstFile
  have limit : 13000 ≤ FCONTENT_MAX_SIZE := by decide
  obtain ⟨fl, good, wf, leads, file, _, rows, _⟩ := first.written Bytes.zero limit
  generalize step firstState (.write (render [[97]]) Bytes.zero 13000 0) = s at *
  obtain ⟨s₁, found, _⟩ := pathToInum_spec [] good.owned good.tree (by simp) first.plain rfl good.tree.top.dir
  rw [leads, List.nil_append] at found
  exact ⟨k, fl, rows.trans (by decide), sfsUnlink_reclaims wf.accounted FirstFile.live file good.tree.root
    (good.tree.top.represents good.owned good.tree.root) (by rw [found]; rfl)⟩

end Sfs
