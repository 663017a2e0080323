import Sfs.Exclusive
import Sfs.Reach
import Sfs.Lib.Partition

namespace Sfs

/-- Every data block is free or part of a file of `L`. -/
def BlockCover (L : Set Nat) (p : Pool Bytes) (fl : List Nat) : Prop := ∀ b, 1025 ≤ b → b < MAX_BLOCK_NUM →
  b ∈ fl ∨ ∃ k ∈ L, isdir (p.cell k) = 0 ∧ b ∈ blocksOf p k

/-- Every data block is free or part of a file that is found, and the two kinds make up all of them. -/
def BlocksKept (s : State) : Prop := ∃ fl, FreeList s.stores fl ∧
  (∀ b, 1025 ≤ b → b < MAX_BLOCK_NUM → b ∈ fl ∨ ∃ k, LiveFile s k ∧ b ∈ listedFile s k) ∧
  ∃ files : Finset Nat, (∀ k, k ∈ files ↔ LiveFile s k) ∧
    freeBlockSize s.stores.sup + (∑ k ∈ files, (listedFile s k).length : Nat) = 31743

/-- A permitted request that removes no directory above a file. -/
structure KeepsFiles (s : State) (op : Op) : Prop extends Permit s op where
  apart : ∀ p tail, op = .rmdir (render p) tail → ∀ q k, p <+: q → Leads s q k → isdir (inodeLoad s k) ≠ 0

variable {L L' : Set Nat} {s s' : State} {p p' : Pool Bytes} {fl fl' : List Nat} {b k m n q r : Nat} {x : Bytes}
  {c : List UInt8} {op : Op} {ops : List Op} {disk : Bytes}

/-- What was free and what was in a file has not got lost. -/
theorem BlockCover.move (cover : BlockCover L p fl)
    (free : ∀ b ∈ fl, b ∈ fl' ∨ ∃ k ∈ L', isdir (p'.cell k) = 0 ∧ b ∈ blocksOf p' k)
    (held : ∀ k ∈ L, isdir (p.cell k) = 0 → ∀ b ∈ blocksOf p k,
      b ∈ fl' ∨ ∃ k ∈ L', isdir (p'.cell k) = 0 ∧ b ∈ blocksOf p' k) : BlockCover L' p' fl' := by
  intro b lower upper
  rcases cover b lower upper with isFree | ⟨k, live, file, member⟩
  · exact free b isFree
  · exact held k live file b member

theorem Made.cover (made : Made L s s' q m x c) (good : Good s L fl) (live : m ∈ L) (ok : DirOk s.stores.pool m)
    (cover : BlockCover L s.stores.pool fl) : BlockCover (insert q L) s'.stores.pool fl := by
  refine cover.move (fun b isFree => Or.inl isFree) fun k live' file b member => Or.inr ⟨k, Or.inr live', ?_, ?_⟩
  · rw [made.isdir_eq good live live', file]
  · have ne : k ≠ m := by
      rintro rfl
      exact ok.dir file
    rwa [(made.same good live live' ne).blocksOf_eq file (good.owned.fits k live')]

theorem Removal.cover (removal : Removal L L' s s' k m r fl') (good : Good s L fl) (ok : DirOk s.stores.pool m)
    (cover : BlockCover L s.stores.pool fl) (free : ∀ b ∈ fl, b ∈ fl')
    (gone : isdir (s.stores.pool.cell k) = 0 → ∀ b ∈ blocksOf s.stores.pool k, b ∈ fl') :
    BlockCover L' s'.stores.pool fl' := by
  refine cover.move (fun b isFree => Or.inl (free b isFree)) fun j live file b member => ?_
  by_cases here : j = k
  · subst here
    exact Or.inl (gone file b member)
  · have ne : j ≠ m := by
      rintro rfl
      exact ok.dir file
    refine Or.inr ⟨j, removal.rest j live here, ?_, ?_⟩
    · rw [removal.isdir_eq live here, file]
    · rwa [(removal.same j live here ne).blocksOf_eq file (good.owned.fits j live)]

theorem FileStep.cover (change : FileStep L s s' k n fl fl') (good : Good s L fl) (live : k ∈ L)
    (file : isdir (s.stores.pool.cell k) = 0) (cover : BlockCover L s.stores.pool fl) :
    BlockCover L s'.stores.pool fl' := by
  have there : ∀ b ∈ blocksOf s.stores.pool k ++ fl,
      b ∈ fl' ∨ ∃ k ∈ L, isdir (s'.stores.pool.cell k) = 0 ∧ b ∈ blocksOf s'.stores.pool k := fun b member => by
    rcases List.mem_append.mp (change.moved.symm.subset member) with held | free
    · exact Or.inr ⟨k, live, by rw [change.isdir_eq good live live, file], held⟩
    · exact Or.inl free
  refine cover.move (fun b isFree => there b (List.mem_append_right _ isFree)) fun j live' file' b member => ?_
  by_cases here : j = k
  · subst here
    exact there b (List.mem_append_left _ member)
  · have kept := change.kept good live file live' file' here
    refine Or.inr ⟨j, live', by rw [change.isdir_eq good live live', file'], ?_⟩
    rwa [kept.same.blocksOf_eq file' (good.owned.fits j live')]

theorem Spilled.cover (spilled : Spilled s s') (good : Good s L fl) (cover : BlockCover L s.stores.pool fl) :
    BlockCover L s'.stores.pool fl := by
  refine cover.move (fun b isFree => Or.inl isFree) fun j live file b member => Or.inr ⟨j, live, ?_, ?_⟩
  · rw [spilled.cell_eq, file]
  · rwa [(spilled.same j).blocksOf_eq file (good.owned.fits j live)]

theorem Effect.cover (effect : Effect L s fl op L' fl' s') (good : Good s L fl)
    (cover : BlockCover L s.stores.pool fl) : BlockCover L' s'.stores.pool fl' := by
  cases effect with
  | none glance => rwa [glance.stores_eq]
  | create located short absent made => exact made.cover good located.live located.ok cover
  | mkdir located short absent made => exact made.cover good located.live located.ok cover
  | unlink located leads file hit within removal _ =>
    exact removal.cover good located.ok cover (fun b => List.mem_append_right _)
      fun _ b member => List.mem_append_left _ (List.mem_reverse.mpr member)
  | rmdir located leads dir hit within removal =>
    exact removal.cover good located.ok cover (fun b => id) fun file => absurd file dir
  | write located leads file change errno =>
    exact change.cover good (good.child_pos located.live leads).1 file cover
  | spill located leads file change errno spilled _ =>
    have live := (good.child_pos located.live leads).1
    exact spilled.cover (change.good good live file errno) (change.cover good live file cover)
  | truncate located leads file change errno =>
    exact change.cover good (good.child_pos located.live leads).1 file cover

namespace Good

variable (good : Good s L fl)

include good

theorem spared_files (keeps : KeepsFiles s op) : Spared False L s op := by
  intro p tail asked k live kind q plain reach below
  have leads := (good.tree.leads_iff good.owned plain).mpr reach
  have dir := keeps.apart p tail asked q k below leads
  rw [good.owned.inodeLoad_eq live] at dir
  exact dir (kind.resolve_right id)

theorem liveFile_iff (reachable : Reachable False L s) :
    LiveFile s k ↔ k ∈ L ∧ isdir (s.stores.pool.cell k) = 0 := by
  refine ⟨good.tree.liveFile good.owned, fun ⟨live, file⟩ => ?_⟩
  obtain ⟨q, plain, reach⟩ := reachable k live (Or.inl file)
  refine ⟨q, (good.tree.leads_iff good.owned plain).mpr reach, ?_⟩
  rw [good.owned.inodeLoad_eq live, file]

/-- A cover of the data blocks is a partition. -/
theorem blocksKept (reachable : Reachable False L s) (cover : BlockCover L s.stores.pool fl) : BlocksKept s := by
  classical
  have files := fun k => good.liveFile_iff (k := k) reachable
  have listed : ∀ k, LiveFile s k → listedFile s k = blocksOf s.stores.pool k := fun k found => by
    obtain ⟨live, file⟩ := (files k).mp found
    exact good.owned.listedFile_eq live file
  refine ⟨fl, good.list, fun b lower upper => ?_, (Finset.range 1024).filter (LiveFile s ·), fun k => ?_, ?_⟩
  · rcases cover b lower upper with isFree | ⟨k, live, file, member⟩
    · exact Or.inl isFree
    · have found := (files k).mpr ⟨live, file⟩
      exact Or.inr ⟨k, found, by rwa [listed k found]⟩
  · rw [Finset.mem_filter, Finset.mem_range, and_iff_right_iff_imp]
    intro found
    have range := good.owned.node_range ((files k).mp found).1
    omega
  · have total : fl.length + ∑ k ∈ (Finset.range 1024).filter (LiveFile s ·), (blocksOf s.stores.pool k).length =
        (Finset.Ico 1025 32768).card := by
      refine Partition.length_add_sum (fun b isFree => ?_) (fun k member b held => ?_) good.list.nodup
        (fun k member => ?_) (fun k member k' member' ne => ?_) fun b within => ?_
      · exact Finset.mem_Ico.mpr (good.list.area b isFree)
      · obtain ⟨live, file⟩ := (files k).mp (Finset.mem_filter.mp member).2
        exact Finset.mem_Ico.mpr (good.blocks.area k live file b held)
      · obtain ⟨live, file⟩ := (files k).mp (Finset.mem_filter.mp member).2
        exact good.blocks.nodup k live file
      · obtain ⟨live, file⟩ := (files k).mp (Finset.mem_filter.mp member).2
        obtain ⟨live', file'⟩ := (files k').mp (Finset.mem_filter.mp member').2
        exact good.blocks.apart k live k' live' file file' ne
      · obtain ⟨lower, upper⟩ := Finset.mem_Ico.mp within
        rcases cover b lower upper with isFree | ⟨k, live, file, held⟩
        · exact Or.inl isFree
        · have range := good.owned.node_range live
          exact Or.inr ⟨k, Finset.mem_filter.mpr ⟨Finset.mem_range.mpr (by omega), (files k).mpr ⟨live, file⟩⟩, held⟩
    have same : ∑ k ∈ (Finset.range 1024).filter (LiveFile s ·), (listedFile s k).length =
        ∑ k ∈ (Finset.range 1024).filter (LiveFile s ·), (blocksOf s.stores.pool k).length :=
      Finset.sum_congr rfl fun k member => by rw [listed k (Finset.mem_filter.mp member).2]
    rw [Nat.card_Ico] at total
    rw [good.count, same]
    omega

end Good

/-- In every run that removes no directory above a file, no data block gets lost. -/
theorem run_blocksKept (run : Run step KeepsFiles (sfsInit disk) ops s) : BlocksKept s := by
  have start := (sfsInit_initial disk).good
  have holds : ∃ L fl, Good s L fl ∧ Reachable False L s ∧ BlockCover L s.stores.pool fl := by
    refine run.invariant (I := fun s => ∃ L fl, Good s L fl ∧ Reachable False L s ∧ BlockCover L s.stores.pool fl)
      ⟨_, _, start, ?_, fun b lower upper => Or.inl (List.mem_range'.mpr ⟨b - 1025, ?_, by omega⟩)⟩ fun t op holds keeps => ?_
    · rintro k rfl kind
      exact absurd (kind.resolve_right id) start.tree.top.dir
    · have max : MAX_BLOCK_NUM = 32768 := rfl
      omega
    · obtain ⟨L, fl, good, reachable, cover⟩ := holds
      obtain ⟨L', fl', effect⟩ := good.step_effect keeps.toPermit
      exact ⟨L', fl', effect.good good, effect.reachable good (good.spared_files keeps) reachable, effect.cover good cover⟩
  obtain ⟨L, fl, good, reachable, cover⟩ := holds
  exact good.blocksKept reachable cover

/-- The run that makes `/a` and writes to it. -/
theorem run_blocksKept_written : BlocksKept (step firstState (.write (render [[97]]) Bytes.zero 600 0)) := by
  obtain ⟨k, first⟩ := firstState_firstFile
  have made : Run step KeepsFiles (sfsInit Bytes.zero) [.create (render [[97]]) Bytes.zero] firstState :=
    .next .nil ⟨ready_first.permit, fun _ _ asked => by cases asked⟩
  exact run_blocksKept (made.next ⟨(first.ready_write Bytes.zero).permit, fun _ _ asked => by cases asked⟩)

end Sfs
