import Sfs.Reach
import Sfs.Exclusive

namespace Sfs

/-- The request does not work on what is under path `p`, and removes no directory above it. -/
def Avoids (p : Path) : Op → Prop
  | .unlink path _ | .write path _ _ _ | .truncate path _ => path ≠ render p
  | .rmdir path _ => ∀ d, path = render d → ¬ d <+: p
  | _ => True

/-- A permitted request that leaves what is under path `p` alone. -/
structure LeavesAlone (p : Path) (s : State) (op : Op) : Prop extends Permit s op where
  avoids : Avoids p op

/-- Path `p` leads to the same file `k`, which reads the same and has the same attributes. -/
structure Undisturbed (p : Path) (k : Nat) (s s' : State) : Prop where
  leads : Leads s' p k
  reads : ∀ size offset : Int, 0 ≤ offset → (fstreamRead s' k size offset).1 = (fstreamRead s k size offset).1
  attributes : inodeGetAttr s' k = inodeGetAttr s k

variable {L L' : Set Nat} {s s' : State} {fl fl' : List Nat} {bSize i j k m n : Nat} {c : List UInt8} {cs p : Path}
  {path : CPath} {op : Op} {ops more : List Op} {disk : Bytes}

/-- The read loop depends on the blocks it reads. -/
theorem readBlocks_congr {bEnd : Int}
    (same : ∀ i < bSize, fGet s' i = fGet s i ∧ blockRead s' (fGet s i) = blockRead s (fGet s i))
    (buf : Bytes) (ptr n : Nat) : (readBlocks s' bSize bEnd i buf ptr n).1 = (readBlocks s bSize bEnd i buf ptr n).1 := by
  induction n generalizing i s s' buf ptr with
  | zero => rfl
  | succ n ih =>
    have next : (i : Int) + 1 = ((i + 1 : Nat) : Int) := rfl
    simp only [readBlocks]
    split
    next inside =>
      obtain ⟨number, bytes⟩ := same i (by omega)
      rw [number, bytes, next]
      refine ih (fun j within => ?_) _ _
      cases fBad i with
      | false => exact same j within
      | true => exact same j within
    next => rfl

/-- Reading depends on the size and the blocks of the file. -/
theorem fstreamRead_congr {f f' : Bytes} {rows : Nat} (listed : fnodeListing s k = (rows, { s with f }))
    (listed' : fnodeListing s' k = (rows, { s' with f := f' })) (small : k < 65536)
    (attr : inodeGetAttrUpc { s' with f := f' } k = inodeGetAttrUpc { s with f } k)
    (same : ∀ i < rows, fGet { s' with f := f' } i = fGet { s with f } i ∧
      blockRead s' (fGet { s with f } i) = blockRead s (fGet { s with f } i))
    {size offset : Int} (past : 0 ≤ offset) : (fstreamRead s' k size offset).1 = (fstreamRead s k size offset).1 := by
  obtain ⟨start, rfl⟩ := Int.eq_ofNat_of_zero_le past
  have inum : ushort k = k := ushort_nat small
  have blocks : ∀ bad bEnd n,
      (readBlocks (({ s' with f := f' } : State).fault bad) rows bEnd (start / 512 : Nat) Bytes.zero 0 n).1 =
        (readBlocks (({ s with f } : State).fault bad) rows bEnd (start / 512 : Nat) Bytes.zero 0 n).1 := fun bad bEnd n => by
    refine readBlocks_congr (fun i within => ?_) _ _ n
    cases bad with
    | false => exact same i within
    | true => exact same i within
  simp only [fstreamRead, inum, listed, listed', attr, tdiv_nat, blocks]

/-- A file that is as it was reads as it did. -/
theorem Kept.fstreamRead_eq (kept : Kept s s' k) (owned : Owned L s.stores.pool) (owned' : Owned L' s'.stores.pool)
    (live : k ∈ L) (live' : k ∈ L') (file : isdir (s.stores.pool.cell k) = 0)
    (area : ∀ b ∈ blocksOf s.stores.pool k, 1025 ≤ b ∧ b < 32768) {size offset : Int} (past : 0 ≤ offset) :
    (fstreamRead s' k size offset).1 = (fstreamRead s k size offset).1 := by
  have cell := kept.same.cell_eq
  have file' : isdir (s'.stores.pool.cell k) = 0 := by rw [cell, file]
  have range := owned.node_range live
  have fits := owned.fits k live
  obtain ⟨f, listed, bytes, _⟩ := owned.fnodeListing_spec live file
  obtain ⟨f', listed', bytes', _⟩ := owned'.fnodeListing_spec live' file'
  rw [cell] at listed' bytes'
  rw [endOf_file file] at fits bytes bytes'
  refine fstreamRead_congr listed listed' (by omega) ?_ (fun i within => ?_) past
  · have load : inodeLoad { s with f } k = s.stores.pool.cell k :=
      (inodeLoad_congr rfl k).trans (owned.inodeLoad_eq live)
    have load' : inodeLoad { s' with f := f' } k = s.stores.pool.cell k :=
      ((inodeLoad_congr rfl k).trans (owned'.inodeLoad_eq live')).trans cell
    simp only [inodeGetAttrUpc, load, load']
  · have number : fNo f i = blockNo s.stores.pool k i := block_congr bytes fits within
    have number' : fNo f' i = blockNo s.stores.pool k i := by
      refine block_congr (fun o filled => ?_) fits within
      rw [bytes' o filled, bytesOf, bytesOf]
      exact kept.same.content_eq (by rwa [endOf_file file])
    have held := area _ (List.mem_map.mpr ⟨i, List.mem_range.mpr within, rfl⟩)
    have data := kept.data _ (List.mem_map.mpr ⟨i, List.mem_range.mpr within, rfl⟩)
    have got : fGet { s with f } i = blockNo s.stores.pool k i := by
      rw [← number] at held ⊢
      exact fGet_nat (held.2.trans (by decide))
    have got' : fGet { s' with f := f' } i = blockNo s.stores.pool k i := by
      rw [← number'] at held ⊢
      exact fGet_nat (held.2.trans (by decide))
    rw [got, got', blockRead_data held.1 (held.2.trans (by decide)), blockRead_data held.1 (held.2.trans (by decide)), data]
    exact ⟨rfl, rfl⟩

/-- File `k` stands under path `p` and is as it was in state `s`. -/
structure Steady (p : Path) (k : Nat) (s s' : State) (L' : Set Nat) : Prop where
  live : k ∈ L'
  walks : walk (child s'.stores.pool) 2 p = some k
  file : isdir (s'.stores.pool.cell k) = 0
  kept : Kept s s' k

namespace Located

variable (located : Located L s path cs m c) (good : Good s L fl)

include located good

/-- Another path leads to another file. -/
theorem ne_of_path (leads : child s.stores.pool m c = some j) (other : path ≠ render p)
    (reach : walk (child s.stores.pool) 2 p = some k) : k ≠ j := by
  rintro rfl
  obtain rfl := good.tree.unique reach (located.walk_child.trans leads)
  exact other located.eq

end Located

theorem FileStep.steady (change : FileStep L s s' j n fl fl') (good : Good s L fl) (live' : j ∈ L)
    (file' : isdir (s.stores.pool.cell j) = 0) (ne : k ≠ j) (live : k ∈ L)
    (walks : walk (child s.stores.pool) 2 p = some k) (file : isdir (s.stores.pool.cell k) = 0) : Steady p k s s' L :=
  ⟨live, (change.walk_eq good live' file').trans walks, (change.isdir_eq good live' live).trans file,
    change.kept good live' file' live file ne⟩

/-- A request that leaves the path alone leaves the file as it is. -/
theorem Effect.steady (effect : Effect L s fl op L' fl' s') (good : Good s L fl) (avoids : Avoids p op) (live : k ∈ L)
    (walks : walk (child s.stores.pool) 2 p = some k) (file : isdir (s.stores.pool.cell k) = 0) :
    Steady p k s s' L' := by
  cases effect with
  | none glance =>
    have same := glance.stores_eq
    exact ⟨live, by rw [same, walks], by rw [same, file], .of_stores same k⟩
  | create located short absent made =>
    exact ⟨Set.mem_insert_of_mem _ live,
      (located.walk_made good made absent (located.apart_absent absent walks)).trans walks,
      (made.isdir_eq good located.live live).trans file, made.kept good located.live located.ok live file⟩
  | mkdir located short absent made =>
    exact ⟨Set.mem_insert_of_mem _ live,
      (located.walk_made good made absent (located.apart_absent absent walks)).trans walks,
      (made.isdir_eq good located.live live).trans file, made.kept good located.live located.ok live file⟩
  | unlink located leads file' hit within removal _ =>
    have ne := located.ne_of_path good leads avoids walks
    exact ⟨⟨live, ne⟩,
      (located.walk_removal good removal leads within hit (located.apart_file leads file' walks ne)).trans walks,
      (removal.isdir_eq live ne).trans file, removal.kept located.ok live ne file⟩
  | @rmdir path tail cs m c j r s' located leads dir hit within removal =>
    have ne : k ≠ j := by
      rintro rfl
      exact dir file
    exact ⟨live, (located.walk_removal good removal leads within hit (avoids _ located.eq)).trans walks,
      (removal.isdir_eq live ne).trans file, removal.kept located.ok live ne file⟩
  | write located leads file' change errno =>
    exact change.steady good (good.child_pos located.live leads).1 file' (located.ne_of_path good leads avoids walks)
      live walks file
  | spill located leads file' change errno spilled _ =>
    have live' := (good.child_pos located.live leads).1
    have fits := good.owned.fits k live
    have ne := located.ne_of_path good leads avoids walks
    obtain ⟨_, reach, file₁, kept⟩ := change.steady good live' file' ne live walks file
    refine ⟨live, (spilled.walk_eq (change.good good live' file' errno)).trans reach, ?_,
      kept.trans ⟨spilled.same k, fun b _ => by rw [spilled.data_eq]⟩ file fits⟩
    rw [spilled.cell_eq, file₁]
  | truncate located leads file' change errno =>
    exact change.steady good (good.child_pos located.live leads).1 file' (located.ne_of_path good leads avoids walks)
      live walks file

/-- A file that has been steady is undisturbed. -/
theorem Steady.undisturbed (steady : Steady p k s s' L') (good : Good s L fl) (good' : Good s' L' fl') (live : k ∈ L)
    (file : isdir (s.stores.pool.cell k) = 0) (plain : ∀ c ∈ p, Plain c) : Undisturbed p k s s' := by
  obtain ⟨live', walks', _, kept⟩ := steady
  have loaded : inodeLoad s k = s.stores.pool.cell k := good.owned.inodeLoad_eq live
  have loaded' : inodeLoad s' k = s'.stores.pool.cell k := good'.owned.inodeLoad_eq live'
  refine ⟨(good'.tree.leads_iff good'.owned plain).mpr walks', fun size offset past => ?_, ?_⟩
  · exact kept.fstreamRead_eq good.owned good'.owned live live' file (good.blocks.area k live file) past
  · rw [inodeGetAttr, inodeGetAttr, loaded, loaded', kept.same.cell_eq]

/-- One request more that leaves the path alone. -/
theorem Steady.next {t : State} (steady : Steady p k s t L') (good : Good t L' fl') (permit : Permit t op)
    (avoids : Avoids p op) (file : isdir (s.stores.pool.cell k) = 0) (fits : endOf (s.stores.pool.cell k) ≤ 33376) :
    ∃ L'' fl'', Good (step t op) L'' fl'' ∧ Steady p k s (step t op) L'' := by
  obtain ⟨live₁, walks₁, file₁, kept₁⟩ := steady
  obtain ⟨L'', fl'', effect⟩ := good.step_effect permit
  obtain ⟨live₂, walks₂, file₂, kept₂⟩ := effect.steady good avoids live₁ walks₁ file₁
  exact ⟨L'', fl'', effect.good good, live₂, walks₂, file₂, kept₁.trans kept₂ file fits⟩

/-- Whatever a run does elsewhere, a file that it leaves alone stays where and what it is. -/
theorem run_undisturbed (run : Run step Permit (sfsInit disk) ops s) (leads : Leads s p k)
    (file : isdir (inodeLoad s k) = 0) (rest : Run step (LeavesAlone p) s more s') : Undisturbed p k s s' := by
  obtain ⟨L, fl, good⟩ := run_good (sfsInit_initial disk).good run
  have walks := good.tree.reached good.owned leads
  obtain ⟨live, _⟩ := good.tree.reach walks
  have loaded : inodeLoad s k = s.stores.pool.cell k := good.owned.inodeLoad_eq live
  rw [loaded] at file
  have steady : ∃ L' fl', Good s' L' fl' ∧ Steady p k s s' L' := by
    refine rest.invariant (I := fun t => ∃ L' fl', Good t L' fl' ∧ Steady p k s t L')
      ⟨L, fl, good, live, walks, file, .of_stores rfl k⟩ fun t op holds alone => ?_
    obtain ⟨L₁, fl₁, good₁, steady₁⟩ := holds
    exact steady₁.next good₁ alone.toPermit alone.avoids file (good.owned.fits k live)
  obtain ⟨L', fl', good', steady⟩ := steady
  exact steady.undisturbed good good' live file leads.plain

theorem plain_b : Plain [98] := ⟨by decide, by decide, by decide, by decide, by decide⟩

/-- A second node may be made. -/
theorem FirstFile.permit_create (first : FirstFile s k c) {name : List UInt8} (plain : Plain name) (short : name.length ≤ 13)
    (tail : Bytes) : Permit s (.create (render [name]) tail) := by
  refine ⟨⟨[], name, first.node.tree.proper_top first.node.owned plain, short⟩, trivial, Or.inr ?_⟩
  have spare := first.spare
  simp only [inodeNeed]
  split
  · exact Nat.zero_le _
  · refine (Nat.add_le_add_left (pageCount_le _ _) 1).trans ?_
    omega

/-- The file `/a` after the run that makes `/b`. -/
theorem run_undisturbed_first : ∃ k, Undisturbed [[97]] k firstState (step firstState (.create (render [[98]]) Bytes.zero)) := by
  obtain ⟨k, first⟩ := firstState_firstFile
  have file : isdir (inodeLoad firstState k) = 0 := by
    rw [first.node.owned.inodeLoad_eq FirstNode.live]
    exact first.node.file
  exact ⟨k, run_undisturbed (run_first.mono fun _ _ => Ready.permit) first.node.reached file
    (.next .nil ⟨first.permit_create plain_b (by decide) Bytes.zero, trivial⟩)⟩

end Sfs
