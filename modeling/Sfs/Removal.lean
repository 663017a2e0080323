import Sfs.Good

namespace Sfs

variable {L L' : Set Nat} {s s' : State} {p p' : Pool Bytes} {fl fl' : List Nat} {k m n r j : Nat}
  {c name : List UInt8} {filename f : Bytes}

/-- Entry `r` of directory `m`, which led to node `k`, is gone. -/
structure Removal (L L' : Set Nat) (s s' : State) (k m r : Nat) (fl' : List Nat) : Prop where
  sub : L' ⊆ L
  rest : ∀ j ∈ L, j ≠ k → j ∈ L'
  same : ∀ j ∈ L, j ≠ k → j ≠ m → Same s.stores.pool s'.stores.pool j
  node : k ∈ L' → isdir (s'.stores.pool.cell k) ≠ 0 ∧ size (s'.stores.pool.cell k) = 0
  dir : isdir (s'.stores.pool.cell m) = isdir (s.stores.pool.cell m)
  dropped : Table.Dropped (dirTable s.stores.pool m) (dirTable s'.stores.pool m) r
  owned : Owned L' s'.stores.pool
  list : FreeList s'.stores fl'
  blocks : FileBlocks L' s'.stores.pool fl'
  count : freeBlockSize s'.stores.sup = fl'.length
  synced : Synced s'
  errno : s'.errno = 0
  traced : Traced s s'
  data : ∀ i ∈ L, i ≠ k → isdir (s.stores.pool.cell i) = 0 → ∀ b ∈ blocksOf s.stores.pool i,
    s'.stores.data b = s.stores.data b

namespace Removal

variable (removal : Removal L L' s s' k m r fl') (before : Good s L fl) (live : m ∈ L) (ne : m ≠ k)
  (ok : DirOk s.stores.pool m) (within : r < size (s.stores.pool.cell m)) (hit : entName s.stores.pool m r = name)
  (notDot : name ≠ [46]) (notDotdot : name ≠ [46, 46])

include removal before

theorem child_other (live' : j ∈ L) (ne : j ≠ k) (ne' : j ≠ m) :
    child s'.stores.pool j c = child s.stores.pool j c :=
  (removal.same j live' ne ne').child_eq (before.owned.fits j live') (before.tree.dirs j live')

omit before in
theorem isdir_eq (live' : j ∈ L) (ne : j ≠ k) : isdir (s'.stores.pool.cell j) = isdir (s.stores.pool.cell j) := by
  by_cases here : j = m
  · rw [here, removal.dir]
  · rw [(removal.same j live' ne here).cell_eq]

omit before in
theorem kept (ok : DirOk s.stores.pool m) (live' : j ∈ L) (ne : j ≠ k) (file : isdir (s.stores.pool.cell j) = 0) :
    Kept s s' j := by
  have ne' : j ≠ m := by
    rintro rfl
    exact ok.dir file
  exact ⟨removal.same j live' ne ne', removal.data j live' ne file⟩

omit before in
include ok in
theorem parent_ok (two : 2 ≤ r) (within : r < size (s.stores.pool.cell m)) : DirOk s'.stores.pool m := by
  have distinct := removal.dropped.distinct ok.distinct
  obtain ⟨rows, old⟩ := removal.dropped
  replace rows : size (s'.stores.pool.cell m) = size (s.stores.pool.cell m) - 1 := rows
  have name : ∀ i < size (s.stores.pool.cell m) - 1, entName s'.stores.pool m i =
      entName s.stores.pool m (if i = r then size (s.stores.pool.cell m) - 1 else i) := fun i hi => (old i hi).1
  refine ⟨?_, by omega, ?_, ?_, distinct, fun i hi => ?_⟩
  · rw [removal.dir]
    exact ok.dir
  · rw [name 0 (by omega), if_neg (by omega), ok.dot]
  · rw [name 1 (by omega), if_neg (by omega), ok.dotdot]
  · rw [name i (by omega)]
    exact ok.named _ (by split <;> omega)

omit before in
include ok within hit notDot notDotdot in
theorem child_parent : child s'.stores.pool m c = if c = name then none else child s.stores.pool m c := by
  have find := removal.dropped.find_eq (y := c) ok.distinct within
  replace hit : (dirTable s.stores.pool m).key r = name := hit
  rw [hit] at find
  rw [child, child, removal.dir, find]
  by_cases here : c = name
  · rw [if_pos here, if_pos ⟨ok.dir, by rwa [here], by rwa [here]⟩, if_pos here]
  · simp only [if_neg here]

include live ne ok within hit notDot notDotdot

theorem good (leads : child s.stores.pool m name = some k) : Good s' L' fl' := by
  obtain ⟨_, notRoot, _⟩ := before.tree.closed m live name k leads
  have two : 2 ≤ r := by
    by_contra low
    rcases (by omega : r = 0 ∨ r = 1) with rfl | rfl
    · exact notDot (hit.symm.trans ok.dot)
    · exact notDotdot (hit.symm.trans ok.dotdot)
  have parent := removal.parent_ok ok two within
  have oldDir : ∀ j ∈ L, j ≠ k → DirOk s.stores.pool j → DirOk s'.stores.pool j := fun j live' ne' ok' => by
    by_cases here : j = m
    · rw [here]
      exact parent
    · exact ok'.congr (removal.same j live' ne' here) (before.owned.fits j live')
  refine ⟨removal.owned, before.tree.shrink (removal.rest 2 before.tree.root (Ne.symm notRoot))
    (oldDir 2 before.tree.root (Ne.symm notRoot) before.tree.top) (fun j live' dir => ?_)
    (fun j live' c i step => ?_), removal.list, removal.blocks, removal.count, removal.synced, removal.errno,
    removal.traced.sounds before.sound⟩
  · by_cases here : j = k
    · subst here
      exact Or.inr (removal.node live').2
    · have inL := removal.sub live'
      rw [removal.isdir_eq inL here] at dir
      by_cases atM : j = m
      · rw [atM]
        exact Or.inl parent
      · rw [(removal.same j inL here atM).cell_eq]
        exact (before.tree.dirs j inL dir).imp_left (oldDir j inL here)
  · have inL := removal.sub live'
    have notK : j ≠ k := by
      rintro rfl
      rw [child_empty (removal.node live').2] at step
      exact Option.some_ne_none i step.symm
    have was : child s.stores.pool j c = some i ∧ i ≠ k := by
      by_cases atM : j = m
      · subst atM
        rw [removal.child_parent ok within hit notDot notDotdot] at step
        split at step
        next => exact absurd step.symm (Option.some_ne_none i)
        next other =>
          refine ⟨step, ?_⟩
          rintro rfl
          exact other (before.tree.once j inL j inL c name i step leads).2
      · rw [removal.child_other before inL notK atM] at step
        refine ⟨step, ?_⟩
        rintro rfl
        exact atM (before.tree.once j inL m live c name i step leads).1
    obtain ⟨liveI, _, okI⟩ := before.tree.closed j inL c i was.1
    refine ⟨inL, was.1, removal.rest i liveI was.2, fun dir => ?_⟩
    rw [removal.isdir_eq liveI was.2] at dir
    exact oldDir i liveI was.2 (okI dir)

end Removal

end Sfs
