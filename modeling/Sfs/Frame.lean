import Sfs.Effect

namespace Sfs

variable {L L' : Set Nat} {s s' t : State} {fl fl' : List Nat} {k m n q r : Nat} {x : Bytes} {c : List UInt8}
  {cs pa : Path} {path : CPath} {op : Op}

namespace Located

variable (located : Located L s path cs m c) (good : Good s L fl)

include located good

/-- Only paths through the new entry lead elsewhere. -/
theorem walk_made (made : Made L s s' q m x c) (absent : child s.stores.pool m c = none)
    (apart : ¬ cs ++ [c] <+: pa) : walk (child s'.stores.pool) 2 pa = walk (child s.stores.pool) 2 pa := by
  refine Walk.congr fun pre y rest split j reach => ?_
  obtain ⟨live, _⟩ := good.tree.reach reach
  by_cases here : j = m
  · subst here
    rw [made.child_parent good located.live located.ok (located.find_none absent) located.last.notDot
      located.last.notDotdot]
    split
    next hit =>
      obtain rfl := good.tree.unique reach located.walks
      exact absurd ⟨rest, by rw [split, ← hit]; simp⟩ apart
    next => rfl
  · exact made.child_other good located.live live here

/-- Only paths through the entry that is gone lead elsewhere. -/
theorem walk_removal (removal : Removal L L' s s' k m r fl') (step : child s.stores.pool m c = some k)
    (within : r < size (s.stores.pool.cell m)) (hit : entName s.stores.pool m r = c) (apart : ¬ cs ++ [c] <+: pa) :
    walk (child s'.stores.pool) 2 pa = walk (child s.stores.pool) 2 pa := by
  refine Walk.congr fun pre y rest split j reach => ?_
  obtain ⟨live, _⟩ := good.tree.reach reach
  by_cases here : j = m
  · subst here
    rw [removal.child_parent located.ok within hit located.last.notDot located.last.notDotdot]
    split
    next same =>
      obtain rfl := good.tree.unique reach located.walks
      exact absurd ⟨rest, by rw [split, ← same]; simp⟩ apart
    next => rfl
  · by_cases atK : j = k
    · subst atK
      obtain rfl := good.tree.unique reach (Walk.concat_some.mpr ⟨m, located.walks, step⟩)
      exact absurd ⟨y :: rest, split.symm⟩ apart
    · exact removal.child_other good live atK here

end Located

theorem FileStep.walk_eq (change : FileStep L s s' k n fl fl') (good : Good s L fl) (live : k ∈ L)
    (file : isdir (s.stores.pool.cell k) = 0) :
    walk (child s'.stores.pool) 2 pa = walk (child s.stores.pool) 2 pa :=
  Walk.congr fun _ _ _ _ _ reach => change.child_eq good live file (good.tree.reach reach).1

theorem Spilled.walk_eq (spilled : Spilled t s') (good : Good t L fl) :
    walk (child s'.stores.pool) 2 pa = walk (child t.stores.pool) 2 pa := by
  refine Walk.congr fun pre y rest split j reach => ?_
  obtain ⟨live, _⟩ := good.tree.reach reach
  exact (spilled.same j).child_eq (good.owned.fits j live) (good.tree.dirs j live)

/-- The request makes or removes an entry on the way of path `pa`. -/
def Crosses (s : State) (op : Op) (pa : Path) : Prop :=
  ∃ cs c, op.path = render (cs ++ [c]) ∧ (∀ x ∈ cs ++ [c], Plain x) ∧ cs ++ [c] <+: pa ∧
    (walk (child s.stores.pool) 2 (cs ++ [c]) = none ∨
      ∃ k, walk (child s.stores.pool) 2 (cs ++ [c]) = some k ∧
        (isdir (s.stores.pool.cell k) = 0 ∨ ∃ tail, op = .rmdir op.path tail))

theorem Located.crosses_absent (located : Located L s path cs m c) (absent : child s.stores.pool m c = none)
    (onPath : op.path = path) (below : cs ++ [c] <+: pa) : Crosses s op pa :=
  ⟨cs, c, onPath.trans located.eq, located.plain, below, Or.inl (by rw [Walk.concat, located.walks]; exact absent)⟩

theorem Located.crosses_removed (located : Located L s path cs m c) (leads : child s.stores.pool m c = some k)
    (onPath : op.path = path) (kind : isdir (s.stores.pool.cell k) = 0 ∨ ∃ tail, op = .rmdir op.path tail)
    (below : cs ++ [c] <+: pa) : Crosses s op pa :=
  ⟨cs, c, onPath.trans located.eq, located.plain, below,
    Or.inr ⟨k, Walk.concat_some.mpr ⟨m, located.walks, leads⟩, kind⟩⟩

/-- Where a path leads is changed only by a request that crosses it. -/
theorem Effect.walk_eq (effect : Effect L s fl op L' fl' s') (good : Good s L fl) (apart : ¬ Crosses s op pa) :
    walk (child s'.stores.pool) 2 pa = walk (child s.stores.pool) 2 pa := by
  cases effect with
  | none glance => rw [glance.stores_eq]
  | create located short absent made fresh _ errno =>
    exact located.walk_made good made absent fun below => apart (located.crosses_absent absent rfl below)
  | mkdir located short absent made fresh _ errno =>
    exact located.walk_made good made absent fun below => apart (located.crosses_absent absent rfl below)
  | unlink located leads file hit within removal _ =>
    exact located.walk_removal good removal leads within hit fun below =>
      apart (located.crosses_removed leads rfl (Or.inl file) below)
  | rmdir located leads dir hit within removal =>
    exact located.walk_removal good removal leads within hit fun below =>
      apart (located.crosses_removed leads rfl (Or.inr ⟨_, rfl⟩) below)
  | write located leads file change errno => exact change.walk_eq good (good.child_pos located.live leads).1 file
  | spill located leads file change errno spilled _ =>
    have live := (good.child_pos located.live leads).1
    exact (spilled.walk_eq (change.good good live file errno)).trans (change.walk_eq good live file)
  | truncate located leads file change errno =>
    exact change.walk_eq good (good.child_pos located.live leads).1 file

end Sfs
