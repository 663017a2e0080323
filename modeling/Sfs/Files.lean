import Sfs.Limits
import Sfs.Reach
import Sfs.Refine
import Sfs.DirMap
import Sfs.Lib.FileTree

namespace Sfs

/-- What a node stands for. -/
def nodeOf (v : Stores) (k : Nat) : TreeNode UInt8 :=
  if isdir (v.pool.cell k) ≠ 0 then .dir else .file (contentOf v k)

/-- The paths of the file system lead to what stands in the tree. -/
structure Shows (s : State) (t : FileTree (List UInt8) UInt8) : Prop where
  node : ∀ q, t.node q = (walk (child s.stores.pool) 2 q).map (nodeOf s.stores)
  kind : ∀ q k, walk (child s.stores.pool) 2 q = some k →
    isdir (s.stores.pool.cell k) = 0 ∨ isdir (s.stores.pool.cell k) = 1

variable {L L' : Set Nat} {s s' s₁ : State} {t : FileTree (List UInt8) UInt8} {fl fl' : List Nat} {k m n q r : Nat}
  {x : Bytes} {c : List UInt8} {cs pa : Path} {path : CPath} {new : List UInt8}

theorem nodeOf_dir (dir : isdir (s.stores.pool.cell k) ≠ 0) : nodeOf s.stores k = .dir := if_pos dir

theorem nodeOf_file (file : isdir (s.stores.pool.cell k) = 0) : nodeOf s.stores k = .file (contentOf s.stores k) :=
  if_neg (not_not.mpr file)

/-- Nodes of one kind, with one content if they are files. -/
theorem nodeOf_congr (kind : isdir (s'.stores.pool.cell k) = isdir (s.stores.pool.cell k))
    (content : isdir (s.stores.pool.cell k) = 0 → contentOf s'.stores k = contentOf s.stores k) :
    nodeOf s'.stores k = nodeOf s.stores k := by
  by_cases file : isdir (s.stores.pool.cell k) = 0
  · rw [nodeOf_file file, nodeOf_file (kind.trans file), content file]
  · rw [nodeOf_dir file, nodeOf_dir (by rwa [kind])]

/-- A file that is kept has its content. -/
theorem Kept.content_eq (kept : Kept s s' k) (good : Good s L fl) (live : k ∈ L)
    (file : isdir (s.stores.pool.cell k) = 0) : contentOf s'.stores k = contentOf s.stores k :=
  (kept.same.untouched (good.owned.fits k live) fun _ => kept.data).content file

/-- What has been removed is not found any more. -/
theorem Located.walk_gone (located : Located L s path cs m c) (good : Good s L fl) (removal : Removal L L' s s' k m r fl')
    (leads : child s.stores.pool m c = some k) (within : r < size (s.stores.pool.cell m))
    (hit : entName s.stores.pool m r = c) : walk (child s'.stores.pool) 2 (cs ++ [c]) = none := by
  have above : walk (child s'.stores.pool) 2 cs = some m :=
    (located.walk_removal good removal leads within hit (Located.not_below cs c)).trans located.walks
  rw [Walk.concat, above, Option.bind_some, removal.child_parent located.ok within hit located.last.notDot
    located.last.notDotdot, if_pos rfl]

namespace Shows

variable (shows : Shows s t)

include shows

theorem some (reach : walk (child s.stores.pool) 2 pa = Option.some k) : t.node pa = Option.some (nodeOf s.stores k) := by
  rw [shows.node, reach, Option.map_some]

theorem none (absent : walk (child s.stores.pool) 2 pa = Option.none) : t.node pa = Option.none := by
  rw [shows.node, absent, Option.map_none]

theorem glance (glance : Glance s s') : Shows s' t := by
  obtain ⟨node, kind⟩ := shows
  rw [← glance.stores_eq] at node kind
  exact ⟨node, kind⟩

end Shows

namespace Located

variable (located : Located L s path cs m c) (shows : Shows s t)

include located shows

theorem shows_dir : t.node cs = some .dir := (shows.some located.walks).trans (congrArg some (nodeOf_dir located.ok.dir))

theorem shows_absent (absent : child s.stores.pool m c = none) : t.node (cs ++ [c]) = none :=
  shows.none (located.walk_child.trans absent)

theorem shows_there (leads : child s.stores.pool m c = some k) : t.node (cs ++ [c]) = some (nodeOf s.stores k) :=
  shows.some (located.walk_child.trans leads)

variable (good : Good s L fl)

include good

/-- A new node stands in the tree. -/
theorem shows_made (made : Made L s s' q m x c) (fresh : Fresh x q) (absent : child s.stores.pool m c = none)
    (kind : isdir x = 0 ∨ isdir x = 1) (dir : t.node cs = some .dir) (free : t.node (cs ++ [c]) = none) :
    Shows s' (t.put cs c (nodeOf s'.stores q) dir free) := by
  have node := made.node good located.live
  have leads := located.walk_new good made absent
  have below : ∀ y rest, walk (child s'.stores.pool) 2 (cs ++ [c] ++ y :: rest) = none := fun y rest => by
    rw [Walk.append, leads, Option.bind_some, walk, made.child_new good located.live fresh, Option.bind_none]
  refine ⟨fun pb => ?_, fun pb k reach => ?_⟩
  · by_cases under : cs ++ [c] <+: pb
    · obtain ⟨rest, rfl⟩ := under
      cases rest with
      | nil => rw [List.append_nil, FileTree.put_self, leads, Option.map_some]
      | cons y rest =>
        rw [below, Option.map_none, FileTree.put_other (by simp), FileTree.absent_below free (List.prefix_append _ _)]
    · have ne : pb ≠ cs ++ [c] := fun same => under (same ▸ List.prefix_refl _)
      have same := located.walk_made good made absent under
      rw [FileTree.put_other ne, shows.node, same]
      refine Option.map_congr fun j reach => (nodeOf_congr ?_ fun file => ?_).symm
      · exact made.isdir_eq good located.live (good.tree.reach reach).1
      · have live := (good.tree.reach reach).1
        exact (made.kept good located.live located.ok live file).content_eq good live file
  · by_cases under : cs ++ [c] <+: pb
    · obtain ⟨rest, rfl⟩ := under
      cases rest with
      | nil =>
        rw [List.append_nil, leads] at reach
        obtain rfl := Option.some.inj reach
        rwa [node]
      | cons y rest =>
        rw [below] at reach
        cases reach
    · rw [located.walk_made good made absent under] at reach
      rw [made.isdir_eq good located.live (good.tree.reach reach).1]
      exact shows.kind pb k reach

/-- What is removed is gone from the tree, with all that was below it. -/
theorem shows_removal (removal : Removal L L' s s' k m r fl') (leads : child s.stores.pool m c = some k)
    (within : r < size (s.stores.pool.cell m)) (hit : entName s.stores.pool m r = c) (below : cs ++ [c] ≠ []) :
    Shows s' (t.remove (cs ++ [c]) below) := by
  have there : walk (child s.stores.pool) 2 (cs ++ [c]) = some k := located.walk_child.trans leads
  have gone := located.walk_gone good removal leads within hit
  have other : ∀ pb j, ¬ cs ++ [c] <+: pb → walk (child s.stores.pool) 2 pb = some j → j ∈ L ∧ j ≠ k := by
    refine fun pb j apart reach => ⟨(good.tree.reach reach).1, ?_⟩
    rintro rfl
    exact apart (good.tree.unique there reach ▸ List.prefix_refl _)
  refine ⟨fun pb => ?_, fun pb j reach => ?_⟩
  · by_cases under : cs ++ [c] <+: pb
    · rw [FileTree.remove_below under, walk_below_none gone under, Option.map_none]
    · rw [FileTree.remove_other under, shows.node, located.walk_removal good removal leads within hit under]
      refine Option.map_congr fun j reach => (nodeOf_congr ?_ fun file => ?_).symm
      · obtain ⟨live, ne⟩ := other pb j under reach
        exact removal.isdir_eq live ne
      · obtain ⟨live, ne⟩ := other pb j under reach
        exact (removal.kept located.ok live ne file).content_eq good live file
  · by_cases under : cs ++ [c] <+: pb
    · rw [walk_below_none gone under] at reach
      cases reach
    · rw [located.walk_removal good removal leads within hit under] at reach
      obtain ⟨live, ne⟩ := other pb j under reach
      rw [removal.isdir_eq live ne]
      exact shows.kind pb j reach

/-- A file has another content. -/
theorem shows_changed (change : FileStep L s s' k n fl fl') (leads : child s.stores.pool m c = some k)
    (file : isdir (s.stores.pool.cell k) = 0) {old : List UInt8} (there : t.node (cs ++ [c]) = some (.file old)) :
    Shows s' (t.rewrite (cs ++ [c]) (contentOf s'.stores k) there) := by
  have live := (good.child_pos located.live leads).1
  have file' : isdir (s'.stores.pool.cell k) = 0 := (change.isdir_eq good live live).trans file
  have same : ∀ pb, walk (child s'.stores.pool) 2 pb = walk (child s.stores.pool) 2 pb := fun pb =>
    change.walk_eq good live file
  have leads' : walk (child s.stores.pool) 2 (cs ++ [c]) = some k := located.walk_child.trans leads
  refine ⟨fun pb => ?_, fun pb j reach => ?_⟩
  · rw [same]
    by_cases here : pb = cs ++ [c]
    · rw [here, FileTree.rewrite_self, leads', Option.map_some, nodeOf_file file']
    · rw [FileTree.rewrite_other here, shows.node]
      refine Option.map_congr fun j reach => (nodeOf_congr ?_ fun file'' => ?_).symm
      · exact change.isdir_eq good live (good.tree.reach reach).1
      · have ne : j ≠ k := by
          rintro rfl
          exact here (good.tree.unique reach leads')
        exact (change.kept good live file (good.tree.reach reach).1 file'' ne).content_eq good (good.tree.reach reach).1 file''
  · rw [same] at reach
    rw [change.isdir_eq good live (good.tree.reach reach).1]
    exact shows.kind pb j reach

end Located

end Sfs
