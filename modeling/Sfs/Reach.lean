import Sfs.Frame

namespace Sfs

/-- Every file of `L` stands under some path, and with `dirs` every directory as well. -/
def Reachable (dirs : Prop) (L : Set Nat) (s : State) : Prop := ∀ k ∈ L, isdir (s.stores.pool.cell k) = 0 ∨ dirs →
  ∃ q, (∀ c ∈ q, Plain c) ∧ walk (child s.stores.pool) 2 q = some k

/-- No directory is removed above what `Reachable` speaks of. -/
def Spared (dirs : Prop) (L : Set Nat) (s : State) (op : Op) : Prop := ∀ p tail, op = .rmdir (render p) tail →
  ∀ k ∈ L, isdir (s.stores.pool.cell k) = 0 ∨ dirs → ∀ q, (∀ c ∈ q, Plain c) →
    walk (child s.stores.pool) 2 q = some k → ¬ p <+: q

variable {dirs : Prop} {L L' : Set Nat} {s s' : State} {fl fl' : List Nat} {j k m q r : Nat} {x : Bytes}
  {c : List UInt8} {cs pa : Path} {path : CPath} {op : Op}

theorem walk_below_none {p : Pool Bytes} (absent : walk (child p) 2 cs = none) (below : cs <+: pa) :
    walk (child p) 2 pa = none := by
  obtain ⟨rest, rfl⟩ := below
  rw [Walk.append, absent, Option.bind_none]

namespace Located

variable (located : Located L s path cs m c)

include located

theorem walk_child : walk (child s.stores.pool) 2 (cs ++ [c]) = child s.stores.pool m c := by
  rw [Walk.concat, located.walks, Option.bind_some]

omit located in
theorem not_below (cs : Path) (c : List UInt8) : ¬ cs ++ [c] <+: cs := fun below => by
  have shorter := below.length_le
  rw [List.length_append, List.length_singleton] at shorter
  omega

/-- What a path leads to is not below what is absent. -/
theorem apart_absent (absent : child s.stores.pool m c = none) (reach : walk (child s.stores.pool) 2 pa = some j) :
    ¬ cs ++ [c] <+: pa := fun below => by
  rw [walk_below_none (located.walk_child.trans absent) below] at reach
  exact Option.some_ne_none j reach.symm

/-- Below a file is nothing but the file. -/
theorem apart_file (leads : child s.stores.pool m c = some k) (file : isdir (s.stores.pool.cell k) = 0)
    (reach : walk (child s.stores.pool) 2 pa = some j) (ne : j ≠ k) : ¬ cs ++ [c] <+: pa := by
  rintro ⟨rest, rfl⟩
  rw [Walk.append, located.walk_child, leads, Option.bind_some] at reach
  cases rest with
  | nil => exact ne (Option.some.inj reach).symm
  | cons y rest =>
    rw [walk, child_file file, Option.bind_none] at reach
    exact Option.some_ne_none j reach.symm

variable (good : Good s L fl)

include good

/-- The new node stands under its name. -/
theorem walk_new (made : Made L s s' q m x c) (absent : child s.stores.pool m c = none) :
    walk (child s'.stores.pool) 2 (cs ++ [c]) = some q := by
  rw [Walk.concat, (located.walk_made good made absent (not_below cs c)).trans located.walks, Option.bind_some,
    made.child_parent good located.live located.ok (located.find_none absent) located.last.notDot
      located.last.notDotdot, if_pos rfl]

theorem reachable_made (made : Made L s s' q m x c) (absent : child s.stores.pool m c = none)
    (reachable : Reachable dirs L s) : Reachable dirs (insert q L) s' := by
  rintro k (rfl | live) kind
  · exact ⟨cs ++ [c], located.plain, located.walk_new good made absent⟩
  · rw [made.isdir_eq good located.live live] at kind
    obtain ⟨pa, plain, reach⟩ := reachable k live kind
    refine ⟨pa, plain, ?_⟩
    rw [located.walk_made good made absent (located.apart_absent absent reach), reach]

end Located

theorem FileStep.reachable (change : FileStep L s s' k m fl fl') (good : Good s L fl) (live : k ∈ L)
    (file : isdir (s.stores.pool.cell k) = 0) (reachable : Reachable dirs L s) : Reachable dirs L s' := by
  intro j live' kind
  rw [change.isdir_eq good live live'] at kind
  obtain ⟨pa, plain, reach⟩ := reachable j live' kind
  exact ⟨pa, plain, (change.walk_eq good live file).trans reach⟩

theorem Spilled.reachable (spilled : Spilled s s') (good : Good s L fl) (reachable : Reachable dirs L s) :
    Reachable dirs L s' := by
  intro j live kind
  rw [spilled.cell_eq] at kind
  obtain ⟨pa, plain, reach⟩ := reachable j live kind
  exact ⟨pa, plain, (spilled.walk_eq good).trans reach⟩

/-- What stands under a path still does after a request that spares it. -/
theorem Effect.reachable (effect : Effect L s fl op L' fl' s') (good : Good s L fl) (spared : Spared dirs L s op)
    (reachable : Reachable dirs L s) : Reachable dirs L' s' := by
  cases effect with
  | none glance =>
    intro k live kind
    rw [glance.stores_eq] at kind ⊢
    exact reachable k live kind
  | create located short absent made fresh _ errno => exact located.reachable_made good made absent reachable
  | mkdir located short absent made fresh _ errno => exact located.reachable_made good made absent reachable
  | unlink located leads file hit within removal _ =>
    rintro j ⟨live, ne⟩ kind
    rw [removal.isdir_eq live ne] at kind
    obtain ⟨pa, plain, reach⟩ := reachable j live kind
    refine ⟨pa, plain, ?_⟩
    rw [located.walk_removal good removal leads within hit (located.apart_file leads file reach ne), reach]
  | @rmdir path tail cs m c k r s' located leads dir hit within removal =>
    intro j live kind
    by_cases here : j = k
    · subst here
      have all : isdir (s.stores.pool.cell j) = 0 ∨ dirs := Or.inr (kind.resolve_left (removal.node live).1)
      have apart := spared (cs ++ [c]) _ (by rw [located.eq]) j live all (cs ++ [c]) located.plain
        (located.walk_child.trans leads)
      exact absurd (List.prefix_refl _) apart
    · rw [removal.isdir_eq live here] at kind
      obtain ⟨pa, plain, reach⟩ := reachable j live kind
      refine ⟨pa, plain, ?_⟩
      rw [located.walk_removal good removal leads within hit (spared _ _ (by rw [located.eq]) j live kind pa plain reach),
        reach]
  | write located leads file change errno =>
    exact change.reachable good (good.child_pos located.live leads).1 file reachable
  | spill located leads file change errno spilled _ =>
    have live := (good.child_pos located.live leads).1
    exact spilled.reachable (change.good good live file errno) (change.reachable good live file reachable)
  | truncate located leads file change errno =>
    exact change.reachable good (good.child_pos located.live leads).1 file reachable

end Sfs
