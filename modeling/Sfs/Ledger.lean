import Sfs.NodeCensus
import Sfs.Outcome
import Sfs.TreeServe

namespace Sfs

open Classical in
/-- The nodes of the tree. -/
noncomputable def treeNodes (s : State) : Finset Nat := (Finset.range 1024).filter (InTree s ·)

/-- Node `k` stands at the path or below it. -/
def Below (s : State) (path : CPath) (k : Nat) : Prop := ∃ p q, path = render p ∧ p <+: q ∧ Leads s q k

open Classical in
noncomputable def nodesBelow (s : State) (path : CPath) : Finset Nat := (treeNodes s).filter (Below s path ·)

/-- The inodes that node `k` takes up. -/
def inodesAt (s : State) (k : Nat) : Nat := 1 + pagesOf (endOf (inodeLoad s k))

/-- The blocks that node `k` takes up, if it is a file. -/
def blocksAt (s : State) (k : Nat) : Nat := if isdir (inodeLoad s k) = 0 then (listedFile s k).length else 0

/-- The free inodes, and those of the tree. -/
noncomputable def inodeTotal (s : State) : Nat := spareInodes s + ∑ k ∈ treeNodes s, inodesAt s k

/-- The free blocks, and those of the tree. -/
noncomputable def blockTotal (s : State) : Nat := spareBlocks s + ∑ k ∈ treeNodes s, blocksAt s k

/-- The pages lost where the directory above `path` drops an entry. -/
def lostAbove (s : State) (path : CPath) : Nat :=
  let rows := size (inodeLoad s (pathToInum s path).1.parent)
  stranded (diEntSize * (rows - 1)) (diEntSize * rows)

/-- The inodes that a request loses. Of a directory that is removed only the
pages are given back, and of what is below it nothing. A write for which there
are too few blocks takes an inode when it has failed. -/
noncomputable def lostInodes (s : State) : Op → Nat
  | .unlink path _ => if 0 < (pathToInum s path).1.inum then lostAbove s path else 0
  | .rmdir path _ =>
    let k := (pathToInum s path).1.inum
    if 0 < k then lostAbove s path + (1 + ∑ j ∈ (nodesBelow s path).erase k.toNat, inodesAt s j) else 0
  | .write path _ size offset =>
    let k := (pathToInum s path).1.inum
    let rows := Sfs.size (inodeLoad s k)
    if 0 < k ∧ spareBlocks s < min (lastBlock (int32 offset).toNat (int32 size).toNat) 8344 - rows then
      min 1 (spareInodes s - growNeed s k.toNat (rows + spareBlocks s))
    else 0
  | .truncate path offset =>
    let k := (pathToInum s path).1.inum
    if 0 < k then stranded (blknumSize * (newBSize offset).toNat) (blknumSize * size (inodeLoad s k)) else 0
  | _ => 0

/-- The blocks that a request loses: those of the files below a directory that is removed. -/
noncomputable def lostBlocks (s : State) : Op → Nat
  | .rmdir path _ => if 0 < (pathToInum s path).1.inum then ∑ j ∈ nodesBelow s path, blocksAt s j else 0
  | _ => 0

/-- The blocks of node `k`, if it is a file. -/
def fileBlocks (p : Pool Bytes) (k : Nat) : Nat := if isdir (p.cell k) = 0 then (blocksOf p k).length else 0

/-- The free inodes, and those of the nodes `N` and their pages. -/
def inodesHeld (p : Pool Bytes) (N : Finset Nat) : Nat := p.freeCount 1024 + ∑ k ∈ N, (1 + pagesOf (endOf (p.cell k)))

/-- The free blocks, and those of the files of `N`. -/
def blocksHeld (p : Pool Bytes) (fl : List Nat) (N : Finset Nat) : Nat := fl.length + ∑ k ∈ N, fileBlocks p k

/-- The nodes of the tree are those of `N`. -/
structure Counted (s : State) (N : Finset Nat) (fl : List Nat) : Prop where
  good : Good s (N : Set Nat) fl
  reachable : Reachable True (N : Set Nat) s

variable {L L' : Set Nat} {N : Finset Nat} {s s' : State} {p p' : Pool Bytes} {fl fl' : List Nat} {k m n q : Nat}
  {x buf : Bytes} {c : List UInt8} {cs : Path} {path : CPath} {op : Op} {ops : List Op} {disk : Bytes}

/-- A sum in which one term changes. -/
theorem sum_change {f g : Nat → Nat} (member : k ∈ N) (same : ∀ j ∈ N, j ≠ k → g j = f j) :
    ∑ j ∈ N, g j + f k = ∑ j ∈ N, f j + g k := by
  have rest : ∑ j ∈ N.erase k, g j = ∑ j ∈ N.erase k, f j :=
    Finset.sum_congr rfl fun j member => same j (Finset.mem_of_mem_erase member) (Finset.ne_of_mem_erase member)
  rw [← Finset.add_sum_erase N g member, ← Finset.add_sum_erase N f member, rest]
  omega

theorem pagesOf_short {ptrEnd : Nat} (short : ptrEnd ≤ 96) : pagesOf ptrEnd = 0 := by
  refine Finset.card_eq_zero.mpr (Finset.filter_eq_empty_iff.mpr fun c _ wants => ?_)
  have before := wants.2
  rw [pagePtr] at before
  split at before <;> omega

namespace Repaged

variable (repaged : Repaged L p p' k n buf) (owned : Owned L p) (sub : ∀ j ∈ N, j ∈ L) (member : k ∈ N)

include repaged owned sub member

theorem inodesHeld_eq : inodesHeld p' N + stranded (entrySize (p.cell k) * n) (endOf (p.cell k)) = inodesHeld p N := by
  have live := sub k member
  have balance := repaged.resized.balance owned.toHolding live rfl
  have sums := sum_change (f := fun j => 1 + pagesOf (endOf (p.cell j))) (g := fun j => 1 + pagesOf (endOf (p'.cell j)))
    member fun j member' ne => by rw [(repaged.same owned live (sub j member') ne).cell_eq]
  rw [repaged.ends] at sums
  rw [inodesHeld, inodesHeld]
  omega

end Repaged

/-- A new node without pages takes one inode. -/
theorem inodesHeld_new (free : p.free q = true) (upper : q < 1024) (used : ∀ k ∈ N, p.free k = false) (short : endOf x ≤ 96) :
    inodesHeld ((p.take q).write q x) (insert q N) = inodesHeld p N := by
  have new : q ∉ N := fun member => by
    rw [used q member] at free
    exact Bool.false_ne_true free
  have one := Pool.take_freeCount free upper
  have count : ((p.take q).write q x).freeCount 1024 = (p.take q).freeCount 1024 := by
    rw [Pool.freeCount, Pool.freeCount, Pool.write_free]
  have rest : ∑ k ∈ N, (1 + pagesOf (endOf (((p.take q).write q x).cell k))) = ∑ k ∈ N, (1 + pagesOf (endOf (p.cell k))) :=
    Finset.sum_congr rfl fun k member => by
      have ne : k ≠ q := fun same => new (same ▸ member)
      rw [Pool.write_cell_of_ne _ _ ne, Pool.take_cell]
  have self : 1 + pagesOf (endOf (((p.take q).write q x).cell q)) = 1 := by rw [Pool.write_cell_self, pagesOf_short short]
  rw [inodesHeld, inodesHeld, Finset.sum_insert new, rest, count, self]
  omega

/-- A node without pages gives one inode back. -/
theorem inodesHeld_give (member : k ∈ N) (used : p.free k = false) (upper : k < 1024) (empty : endOf (p.cell k) = 0) :
    inodesHeld (p.give k) (N.erase k) = inodesHeld p N := by
  have isFree : (p.give k).free k = true := (Pool.give_free_iff p).mpr (Or.inr rfl)
  have one := Pool.take_freeCount isFree upper
  have back : ((p.give k).take k).freeCount 1024 = p.freeCount 1024 := by
    refine congrArg Finset.card (Finset.filter_congr fun r _ => ?_)
    rw [Pool.take_free_iff, Pool.give_free_iff]
    have notK : p.free r = true → r ≠ k := by
      rintro isFree' rfl
      rw [used] at isFree'
      exact Bool.false_ne_true isFree'
    exact ⟨fun both => both.1.resolve_right both.2, fun isFree' => ⟨Or.inl isFree', notK isFree'⟩⟩
  rw [inodesHeld, inodesHeld, Pool.give_cell, ← Finset.add_sum_erase N _ member, empty, pagesOf_short (Nat.zero_le _)]
  omega

theorem fileBlocks_dir (dir : isdir (p.cell k) ≠ 0) : fileBlocks p k = 0 := if_neg dir

theorem fileBlocks_file (file : isdir (p.cell k) = 0) : fileBlocks p k = (blocksOf p k).length := if_pos file

theorem Same.fileBlocks_eq (same : Same p p' k) (fits : endOf (p.cell k) ≤ 33376) : fileBlocks p' k = fileBlocks p k := by
  by_cases file : isdir (p.cell k) = 0
  · rw [fileBlocks_file file, fileBlocks_file (by rw [same.cell_eq, file]), same.blocksOf_eq file fits]
  · rw [fileBlocks_dir file, fileBlocks_dir (by rwa [same.cell_eq])]

section

variable {N : Finset Nat} (good : Good s (N : Set Nat) fl)

include good

theorem Made.inodesHeld_eq (made : Made (N : Set Nat) s s' q m x c) (live : m ∈ N) :
    inodesHeld s'.stores.pool (insert q N) = inodesHeld s.stores.pool N := by
  obtain ⟨buf, repaged⟩ := made.repaged
  obtain ⟨owned₁, same₁⟩ := made.owned₁ good
  rw [← Finset.coe_insert] at repaged owned₁
  have balance := repaged.inodesHeld_eq owned₁ (fun j => id) (Finset.mem_insert_of_mem live)
  have keeps : KeepsLeaves (entrySize (((s.stores.pool.take q).write q x).cell m) * (size (s.stores.pool.cell m) + 1))
      (endOf (((s.stores.pool.take q).write q x).cell m)) := by
    refine .of_le ?_
    rw [(same₁ m live).cell_eq, endOf]
    exact Nat.mul_le_mul_left _ (Nat.le_succ _)
  rw [keeps.stranded_eq, Nat.add_zero] at balance
  rw [balance, inodesHeld_new made.free made.upper (fun k member => good.owned.node_used member) made.small]

theorem Made.blocksHeld_eq (made : Made (N : Set Nat) s s' q m x c) (live : m ∈ N) (ok : DirOk s.stores.pool m)
    (fresh : Fresh x q) : blocksHeld s'.stores.pool fl (insert q N) = blocksHeld s.stores.pool fl N := by
  have node := made.node good live
  have new : fileBlocks s'.stores.pool q = 0 := by
    rcases fresh with ⟨file, empty⟩ | ⟨n, rfl⟩
    · rw [fileBlocks_file (by rw [node, file]), length_blocksOf, node, empty]
    · exact fileBlocks_dir (by rw [node]; exact dnodeImage_fresh.2)
  have rest : ∑ k ∈ N, fileBlocks s'.stores.pool k = ∑ k ∈ N, fileBlocks s.stores.pool k :=
    Finset.sum_congr rfl fun k member => by
      by_cases here : k = m
      · subst here
        rw [fileBlocks_dir ok.dir, fileBlocks_dir (by rw [made.isdir_eq good live member]; exact ok.dir)]
      · exact (made.same good live member here).fileBlocks_eq (good.owned.fits k member)
  rw [blocksHeld, blocksHeld, Finset.sum_insert fun member => made.new good member, new, rest, Nat.zero_add]

theorem FileStep.inodesHeld_eq (change : FileStep (N : Set Nat) s s' k n fl fl') (live : k ∈ N) :
    inodesHeld s'.stores.pool N + stranded (entrySize (s.stores.pool.cell k) * n) (endOf (s.stores.pool.cell k)) =
      inodesHeld s.stores.pool N := by
  obtain ⟨f, repaged⟩ := change.repaged
  exact repaged.inodesHeld_eq good.owned (fun j => id) live

theorem FileStep.blocksHeld_eq (change : FileStep (N : Set Nat) s s' k n fl fl') (live : k ∈ N)
    (file : isdir (s.stores.pool.cell k) = 0) : blocksHeld s'.stores.pool fl' N = blocksHeld s.stores.pool fl N := by
  obtain ⟨f, repaged⟩ := change.repaged
  have moved := change.moved.length_eq
  have sums := sum_change (f := fileBlocks s.stores.pool) (g := fileBlocks s'.stores.pool) live fun j member ne =>
    (repaged.same good.owned live member ne).fileBlocks_eq (good.owned.fits j member)
  rw [fileBlocks_file file, fileBlocks_file (by rw [change.isdir_eq good live live, file])] at sums
  rw [List.length_append, List.length_append] at moved
  rw [blocksHeld, blocksHeld]
  omega

/-- A file whose list does not get shorter. -/
theorem FileStep.inodesHeld_longer (change : FileStep (N : Set Nat) s s' k n fl fl') (live : k ∈ N)
    (file : isdir (s.stores.pool.cell k) = 0) (longer : size (s.stores.pool.cell k) ≤ n) :
    inodesHeld s'.stores.pool N = inodesHeld s.stores.pool N := by
  have balance := change.inodesHeld_eq good live
  rw [endOf_file file, entrySize, if_neg (not_not.mpr file),
    (KeepsLeaves.of_le (Nat.mul_le_mul_left _ longer)).stranded_eq, Nat.add_zero] at balance
  exact balance

/-- The free inodes are then fewer by the pages it gets. -/
theorem FileStep.spare (change : FileStep (N : Set Nat) s s' k n fl fl') (live : k ∈ N)
    (file : isdir (s.stores.pool.cell k) = 0) (longer : size (s.stores.pool.cell k) ≤ n) :
    spareInodes s' + growNeed s k n = spareInodes s := by
  obtain ⟨f, repaged⟩ := change.repaged
  have ends := endOf_file file
  have resized := repaged.resized
  rw [ends, entrySize, if_neg (not_not.mpr file)] at resized
  rw [spareInodes, spareInodes, growNeed]
  exact resized.grown_count good.owned.toHolding live ends (Nat.mul_le_mul_left _ longer)

omit good in
/-- A failed write differs only in the inode that it takes at its end. -/
theorem Spilled.inodesHeld_eq (spilled : Spilled s s') :
    inodesHeld s'.stores.pool N + spareInodes s = inodesHeld s.stores.pool N + spareInodes s' := by
  rw [inodesHeld, inodesHeld, spilled.cell_eq, spareInodes, spareInodes]
  omega

omit good in
theorem Spilled.blocksHeld_eq (spilled : Spilled s s') : blocksHeld s'.stores.pool fl N = blocksHeld s.stores.pool fl N := by
  have same : ∀ k, fileBlocks s'.stores.pool k = fileBlocks s.stores.pool k := fun k => by
    rw [fileBlocks, fileBlocks, length_blocksOf, length_blocksOf, spilled.cell_eq]
  rw [blocksHeld, blocksHeld]
  exact congrArg _ (Finset.sum_congr rfl fun k _ => same k)

theorem Good.listed_length (live : k ∈ N) (file : isdir (s.stores.pool.cell k) = 0) :
    (listedFile s k).length = size (s.stores.pool.cell k) := by
  rw [good.owned.listedFile_eq live file, length_blocksOf]

/-- A file is cleared, released, and its entry dropped. -/
theorem Cleared.inodesHeld_eq (cleared : Cleared (N : Set Nat) s.stores.pool p' k m) (live : k ∈ N) (live' : m ∈ N)
    (ne : m ≠ k) : inodesHeld p' (N.erase k) + stranded (entrySize (s.stores.pool.cell m) * (size (s.stores.pool.cell m) - 1))
      (endOf (s.stores.pool.cell m)) = inodesHeld s.stores.pool N := by
  obtain ⟨p₁, f, buf, first, second⟩ := cleared
  have range := good.owned.node_range live
  have same : (p₁.give k).cell m = s.stores.pool.cell m := (first.same good.owned live live' ne).cell_eq
  have emptied := first.inodesHeld_eq good.owned (fun j => id) live
  have ends : endOf (p₁.cell k) = 0 := by rw [first.ends, Nat.mul_zero]
  have owned₂ : Owned (N.erase k : Set Nat) (p₁.give k) := by
    rw [Finset.coe_erase]
    exact first.owned.give live
  rw [← Finset.coe_erase] at second
  have dropped := second.inodesHeld_eq owned₂ (fun j => id) (Finset.mem_erase.mpr ⟨ne, live'⟩)
  rw [Nat.mul_zero, KeepsLeaves.empty.stranded_eq] at emptied
  rw [same, inodesHeld_give live (first.owned.node_used live) range.2 ends] at dropped
  omega

/-- What is left after a node has been removed from the entries of `m`. -/
theorem Removal.fileBlocks_eq (removal : Removal (N : Set Nat) L' s s' k m n fl') (ok : DirOk s.stores.pool m) {j : Nat}
    (live : j ∈ N) (ne : j ≠ k) : fileBlocks s'.stores.pool j = fileBlocks s.stores.pool j := by
  by_cases here : j = m
  · subst here
    rw [fileBlocks_dir ok.dir, fileBlocks_dir (by rw [removal.dir]; exact ok.dir)]
  · exact (removal.same j live ne here).fileBlocks_eq (good.owned.fits j live)

end

/-- Nodes that are closed under the entries are enough. -/
theorem Good.restrict (good : Good s L fl) (sub : L' ⊆ L) (root : 2 ∈ L')
    (closed : ∀ k ∈ L', ∀ c m, child s.stores.pool k c = some m → m ∈ L') : Good s L' fl := by
  obtain ⟨owned, tree, list, blocks, count, synced, errno, sound⟩ := good
  refine ⟨owned.mono sub, tree.shrink root tree.top (fun k live => tree.dirs k (sub live)) fun k live c m leads => ?_,
    list, blocks.mono sub, count, synced, errno, sound⟩
  exact ⟨sub live, leads, closed k live c m leads, (tree.closed k (sub live) c m leads).2.2⟩

namespace Counted

variable {N : Finset Nat} (counted : Counted s N fl)

include counted

theorem treeNodes_eq : treeNodes s = N := by
  classical
  ext k
  rw [treeNodes, Finset.mem_filter, counted.good.inTree_iff counted.reachable, Finset.mem_range, Finset.mem_coe]
  exact ⟨And.right, fun live => ⟨(counted.good.owned.node_range live).2, live⟩⟩

theorem inodesAt_eq (live : k ∈ N) : inodesAt s k = 1 + pagesOf (endOf (s.stores.pool.cell k)) := by
  rw [inodesAt, counted.good.owned.inodeLoad_eq live]

theorem blocksAt_eq (live : k ∈ N) : blocksAt s k = fileBlocks s.stores.pool k := by
  have loaded : inodeLoad s k = s.stores.pool.cell k := counted.good.owned.inodeLoad_eq live
  by_cases file : isdir (s.stores.pool.cell k) = 0
  · rw [blocksAt, loaded, if_pos file, fileBlocks_file file, counted.good.owned.listedFile_eq live file]
  · rw [blocksAt, loaded, if_neg file, fileBlocks_dir file]

theorem inodeTotal_eq : inodeTotal s = inodesHeld s.stores.pool N := by
  rw [inodeTotal, inodesHeld, counted.treeNodes_eq, spareInodes]
  exact congrArg _ (Finset.sum_congr rfl fun k live => counted.inodesAt_eq live)

theorem blockTotal_eq : blockTotal s = blocksHeld s.stores.pool fl N := by
  rw [blockTotal, blocksHeld, counted.treeNodes_eq, spareBlocks, counted.good.count, Int.toNat_natCast]
  exact congrArg _ (Finset.sum_congr rfl fun k live => counted.blocksAt_eq live)

/-- The nodes after a request that removes no directory. -/
theorem next (effect : Effect (N : Set Nat) s fl op L' fl' s') (spared : Spared True (N : Set Nat) s op) {M : Finset Nat}
    (nodes : (M : Set Nat) = L') : Counted s' M fl' := by
  subst nodes
  exact ⟨effect.good counted.good, effect.reachable counted.good spared counted.reachable⟩

end Counted

/-- What a request loses is missing afterwards, and nothing else is. -/
def Pays (s : State) (N : Finset Nat) (fl : List Nat) (op : Op) : Prop := ∃ N' fl', Counted (step s op) N' fl' ∧
  inodesHeld (step s op).stores.pool N' + lostInodes s op = inodesHeld s.stores.pool N ∧
  blocksHeld (step s op).stores.pool fl' N' + lostBlocks s op = blocksHeld s.stores.pool fl N

/-- A request that only looks. -/
theorem Counted.glance {N : Finset Nat} (counted : Counted s N fl) (glance : Glance s (step s op)) (free : lostInodes s op = 0)
    (free' : lostBlocks s op = 0) : Pays s N fl op := by
  have same := glance.stores_eq
  refine ⟨N, fl, ⟨counted.good.glance glance, fun k live kind => ?_⟩, by rw [free, same, Nat.add_zero],
    by rw [free', same, Nat.add_zero]⟩
  rw [same] at kind ⊢
  exact counted.reachable k live kind

/-- A request other than a removal of a directory spares all nodes. -/
theorem spared_other {dirs : Prop} (other : ∀ path tail, op ≠ .rmdir path tail) : Spared dirs L s op :=
  fun p tail asked => absurd asked (other (render p) tail)

/-- The inode that the path leads to and the pages lost above it. -/
theorem Located.lost {N : Finset Nat} (located : Located (N : Set Nat) s path cs m c) (good : Good s (N : Set Nat) fl)
    (leads : child s.stores.pool m c = some k) : (pathToInum s path).1.inum = (k : Nat) ∧ 0 < (pathToInum s path).1.inum ∧
      lostAbove s path = stranded (entrySize (s.stores.pool.cell m) * (size (s.stores.pool.cell m) - 1))
        (endOf (s.stores.pool.cell m)) := by
  obtain ⟨found, positive, _, loaded⟩ := good.path_found located leads
  refine ⟨by rw [found], by rw [found]; exact Int.natCast_pos.mpr positive, ?_⟩
  rw [lostAbove, found, loaded, endOf, entrySize, if_pos located.ok.dir]

theorem Located.absent {N : Finset Nat} (located : Located (N : Set Nat) s path cs m c) (good : Good s (N : Set Nat) fl)
    (absent : child s.stores.pool m c = none) : (pathToInum s path).1.inum = -1 := by
  rw [located.found good, absent, toInum_none]

namespace Counted

variable {N : Finset Nat} (counted : Counted s N fl)

include counted

theorem made (effect : Effect (N : Set Nat) s fl op (insert q (N : Set Nat)) fl (step s op))
    (made : Made (N : Set Nat) s (step s op) q m x c) (live : m ∈ N) (ok : DirOk s.stores.pool m)
    (fresh : Fresh x q) (other : ∀ path tail, op ≠ .rmdir path tail)
    (free : lostInodes s op = 0) (free' : lostBlocks s op = 0) : Pays s N fl op := by
  refine ⟨insert q N, fl, counted.next effect (spared_other other) (Finset.coe_insert ..), ?_, ?_⟩
  · rw [free, Nat.add_zero, made.inodesHeld_eq counted.good live]
  · rw [free', Nat.add_zero, made.blocksHeld_eq counted.good live ok fresh]

theorem unlink {tail : Bytes} (permit : Permit s (.unlink path tail)) : Pays s N fl (.unlink path tail) := by
  obtain ⟨cs, c, proper, notDir⟩ := permit.vfs
  obtain ⟨m, walks, live, ok, outcome⟩ := sfsUnlink_spec counted.good proper tail notDir
  have located : Located (N : Set Nat) s path cs m c := ⟨proper.eq, proper.plain, walks, live, ok⟩
  have after : (sfsUnlink s path tail).2 = step s (.unlink path tail) := rfl
  generalize sfsUnlink s path tail = o at outcome after
  obtain ⟨r, s'⟩ := o
  change s' = step s (.unlink path tail) at after
  subst after
  cases outcome with
  | absent none glance =>
    exact counted.glance glance (if_neg (by rw [located.absent counted.good none]; decide)) rfl
  | @removed k _ _ leads file hit within removal cleared =>
    obtain ⟨_, positive, above⟩ := located.lost counted.good leads
    have live' := (counted.good.child_pos live leads).1
    have ne := located.ne_parent counted.good leads
    have effect : Effect (N : Set Nat) s fl (.unlink path tail) ((N : Set Nat) \ {k})
      ((blocksOf s.stores.pool k).reverse ++ fl) (step s (.unlink path tail)) :=
      .unlink located leads file hit within removal cleared
    refine ⟨N.erase k, _, counted.next effect (spared_other fun _ _ same => by cases same) (Finset.coe_erase ..), ?_, ?_⟩
    · rw [lostInodes, if_pos positive, above]
      exact cleared.inodesHeld_eq counted.good live' live ne
    · have rest : ∑ j ∈ N.erase k, fileBlocks (step s (.unlink path tail)).stores.pool j =
          ∑ j ∈ N.erase k, fileBlocks s.stores.pool j :=
        Finset.sum_congr rfl fun j member => removal.fileBlocks_eq counted.good ok (Finset.mem_of_mem_erase member)
          (Finset.ne_of_mem_erase member)
      have free : lostBlocks s (.unlink path tail) = 0 := rfl
      rw [free, Nat.add_zero, blocksHeld, blocksHeld, rest, ← Finset.add_sum_erase N _ live', fileBlocks_file file,
        List.length_append, List.length_reverse]
      omega

theorem truncate {offset : Nat} (permit : Permit s (.truncate path offset)) : Pays s N fl (.truncate path offset) := by
  obtain ⟨cs, m, c, located, outcome⟩ := counted.good.sfsTruncate_spec permit
  have after : (sfsTruncate s path offset).2 = step s (.truncate path offset) := rfl
  have changed : ∀ {k fl'}, child s.stores.pool m c = some k → isdir (s.stores.pool.cell k) = 0 →
      FileStep (N : Set Nat) s (step s (.truncate path offset)) k (newBSize offset).toNat fl fl' →
      (step s (.truncate path offset)).errno = 0 → Pays s N fl (.truncate path offset) := by
    intro k fl' leads file change errno
    obtain ⟨found, positive, _⟩ := located.lost counted.good leads
    have live := (counted.good.child_pos located.live leads).1
    have loaded : inodeLoad s k = s.stores.pool.cell k := counted.good.owned.inodeLoad_eq live
    have balance := change.inodesHeld_eq counted.good live
    rw [endOf_file file, entrySize, if_neg (not_not.mpr file)] at balance
    refine ⟨N, fl', counted.next (.truncate located leads file change errno) (spared_other fun _ _ same => by cases same) rfl,
      ?_, change.blocksHeld_eq counted.good live file⟩
    rw [lostInodes, if_pos positive, found, loaded]
    exact balance
  generalize sfsTruncate s path offset = o at outcome after
  obtain ⟨r, s'⟩ := o
  change s' = step s (.truncate path offset) at after
  subst after
  cases outcome with
  | absent none glance =>
    exact counted.glance glance (if_neg (by rw [located.absent counted.good none]; decide)) rfl
  | shrunk leads file _ _ change errno => exact changed leads file change errno
  | grown leads file _ _ _ change errno => exact changed leads file change errno

theorem write {size offset : Nat} (permit : Permit s (.write path buf size offset)) :
    Pays s N fl (.write path buf size offset) := by
  obtain ⟨cs, m, c, located, outcome⟩ := counted.good.sfsWrite_spec permit
  have report := fun k found => counted.good.sfsWrite_report (k := k) permit found
  have after : (sfsWrite s path buf size offset).2 = step s (.write path buf size offset) := rfl
  have spare : spareBlocks s = fl.length := by rw [spareBlocks, counted.good.count, Int.toNat_natCast]
  have negative : ∀ {n : Nat}, (n : Int) ≠ -ENOSPC :=
    (ne_of_lt ((by decide : -ENOSPC < 0).trans_le (Int.natCast_nonneg _))).symm
  generalize sfsWrite s path buf size offset = o at outcome after report
  obtain ⟨r, s'⟩ := o
  change s' = step s (.write path buf size offset) at after
  subst after
  cases outcome with
  | absent none glance =>
    refine counted.glance glance (if_neg fun asked => ?_) rfl
    rw [located.absent counted.good none] at asked
    exact absurd asked.1 (by decide)
  | @written k e taken fl' s₁ _ leads file glance stored last errno =>
    obtain ⟨found, _⟩ := located.lost counted.good leads
    have live := (counted.good.child_pos located.live leads).1
    have loaded : inodeLoad s k = s.stores.pool.cell k := counted.good.owned.inodeLoad_eq live
    have change := stored.fileStep.of_glance glance
    have rows := counted.good.listed_length live file
    rw [glance.stores_eq] at change
    have effect : Effect (N : Set Nat) s fl (.write path buf size offset) N fl' (step s (.write path buf size offset)) :=
      .write located leads file change errno
    have free : lostInodes s (.write path buf size offset) = 0 := by
      refine if_neg fun lacks => ?_
      obtain ⟨result, _⟩ := report k found
      rw [if_neg (by rw [rows, ← loaded, ← spare, ← found]; exact Nat.not_le.mpr lacks.2)] at result
      exact negative result
    refine ⟨N, fl', counted.next effect (spared_other fun _ _ same => by cases same) rfl, ?_,
      change.blocksHeld_eq counted.good live file⟩
    rw [free, Nat.add_zero]
    exact change.inodesHeld_longer counted.good live file (Nat.le_max_right _ _)
  | @short k e taken s₁ t _ leads file glance stored failed errno spilled =>
    obtain ⟨found, positive, _⟩ := located.lost counted.good leads
    have live := (counted.good.child_pos located.live leads).1
    have loaded : inodeLoad s k = s.stores.pool.cell k := counted.good.owned.inodeLoad_eq live
    have change := stored.fileStep.of_glance glance
    have rows := counted.good.listed_length live file
    rw [glance.stores_eq] at change
    have effect : Effect (N : Set Nat) s fl (.write path buf size offset) N [] (step s (.write path buf size offset)) :=
      .spill located leads file change errno spilled failed
    obtain ⟨result, _, less⟩ := report k found
    have lacks : ¬ min (lastBlock (int32 offset).toNat (int32 size).toNat) 8344 - (listedFile s k).length ≤ fl.length := by
      intro enough
      rw [if_pos enough] at result
      exact negative result.symm
    rw [if_neg lacks] at less
    have file' : isdir (t.stores.pool.cell k) = 0 := by rw [change.isdir_eq counted.good live live, file]
    have full : Sfs.size (t.stores.pool.cell k) = Sfs.size (s.stores.pool.cell k) + fl.length := by
      have moved := change.moved.length_eq
      rwa [List.append_nil, List.length_append, length_blocksOf, length_blocksOf] at moved
    have rows' : max e (Sfs.size (s.stores.pool.cell k)) = Sfs.size (s.stores.pool.cell k) + fl.length := by
      obtain ⟨f, repaged⟩ := change.repaged
      rw [← repaged.resized.size, full]
    have length : (listedFile (step s (.write path buf size offset)) k).length =
        Sfs.size (s.stores.pool.cell k) + fl.length := by
      have file'' : isdir ((step s (.write path buf size offset)).stores.pool.cell k) = 0 := by rw [spilled.cell_eq, file']
      rw [(effect.good counted.good).listed_length live file'', spilled.cell_eq, full]
    have left := change.spare counted.good live file (Nat.le_max_right _ _)
    have held := change.inodesHeld_longer counted.good live file (Nat.le_max_right _ _)
    have taken : inodesHeld (step s (.write path buf size offset)).stores.pool N + spareInodes t =
      inodesHeld t.stores.pool N + spareInodes (step s (.write path buf size offset)) := spilled.inodesHeld_eq
    have blocks : blocksHeld (step s (.write path buf size offset)).stores.pool [] N = blocksHeld t.stores.pool [] N :=
      spilled.blocksHeld_eq
    have loss : lostInodes s (.write path buf size offset) =
        min 1 (spareInodes s - growNeed s k (Sfs.size (s.stores.pool.cell k) + fl.length)) := by
      rw [lostInodes, if_pos ⟨positive, by rw [found, loaded, ← rows, spare]; exact Nat.not_le.mp lacks⟩, found, loaded, spare,
        Int.toNat_natCast]
    have free : lostBlocks s (.write path buf size offset) = 0 := rfl
    refine ⟨N, [], counted.next effect (spared_other fun _ _ same => by cases same) rfl, ?_, ?_⟩
    · rw [loss]
      rw [rows'] at left
      simp only [length] at less
      generalize step s (.write path buf size offset) = s' at *
      generalize growNeed s k (Sfs.size (s.stores.pool.cell k) + fl.length) = need at *
      generalize inodesHeld s'.stores.pool N = a at *
      generalize inodesHeld s.stores.pool N = b at *
      generalize inodesHeld t.stores.pool N = c at *
      clear counted permit report effect change
      omega
    · rw [free, Nat.add_zero, blocks]
      exact change.blocksHeld_eq counted.good live file

end Counted

/-- What stands below a path, by the entries. -/
theorem Located.below_iff {j : Nat} (located : Located L s path cs m c) (good : Good s L fl) :
    Below s path j ↔ ∃ pa, (∀ x ∈ pa, Plain x) ∧ cs ++ [c] <+: pa ∧ walk (child s.stores.pool) 2 pa = some j := by
  constructor
  · rintro ⟨p, pa, onPath, below, leads⟩
    have plain : ∀ x ∈ p, Plain x := fun x member => leads.plain x (below.subset member)
    obtain rfl := render_inj_plain located.plain plain (located.eq.symm.trans onPath)
    exact ⟨pa, leads.plain, below, good.tree.reached good.owned leads⟩
  · rintro ⟨pa, plain, below, reach⟩
    exact ⟨cs ++ [c], pa, located.eq, below, (good.tree.leads_iff good.owned plain).mpr reach⟩

section

variable {N : Finset Nat} {s' : State} {r : Nat} (counted : Counted s N fl) (located : Located (N : Set Nat) s path cs m c)
  (leads : child s.stores.pool m c = some k) (within : r < size (s.stores.pool.cell m)) (hit : entName s.stores.pool m r = c)
  (removal : Removal (N : Set Nat) N s s' k m r fl)

include counted located leads within hit removal

open Classical in
/-- What is not below the removed directory stands where it stood. -/
theorem Counted.removed : Counted s' (N.filter fun j => ¬ Below s path j) fl := by
  have good := counted.good
  have good' := removal.good good located.live (located.ne_parent good leads) located.ok within hit located.last.notDot
    located.last.notDotdot leads
  have gone := located.walk_gone good removal leads within hit
  have stays : ∀ j ∈ N, ¬ Below s path j → ∃ pa, (∀ x ∈ pa, Plain x) ∧ walk (child s'.stores.pool) 2 pa = some j := by
    intro j live apart
    obtain ⟨pa, plain, reach⟩ := counted.reachable j live (Or.inr trivial)
    have apart' : ¬ cs ++ [c] <+: pa := fun below => apart ((located.below_iff good).mpr ⟨pa, plain, below, reach⟩)
    exact ⟨pa, plain, (located.walk_removal good removal leads within hit apart').trans reach⟩
  -- a node that is still found is not below the directory, as it would be found twice
  have found : ∀ {j pa}, walk (child s'.stores.pool) 2 pa = some j → ¬ Below s path j := by
    intro j pa reach isBelow
    obtain ⟨pb, _, below, reach'⟩ := (located.below_iff good).mp isBelow
    by_cases under : cs ++ [c] <+: pa
    · rw [walk_below_none gone under] at reach
      exact Option.some_ne_none j reach.symm
    · rw [located.walk_removal good removal leads within hit under] at reach
      exact under (good.tree.unique reach reach' ▸ below)
  refine ⟨good'.restrict (fun j member => (Finset.mem_filter.mp member).1) ?_ fun j member y i step => ?_, fun j member _ => ?_⟩
  · have atRoot : walk (child s'.stores.pool) 2 [] = some 2 := rfl
    exact Finset.mem_filter.mpr ⟨good.tree.root, found atRoot⟩
  · obtain ⟨live, apart⟩ := Finset.mem_filter.mp member
    obtain ⟨pa, _, reach⟩ := stays j live apart
    exact Finset.mem_filter.mpr ⟨(good'.tree.closed j live y i step).1, found (Walk.concat_some.mpr ⟨j, reach, step⟩)⟩
  · obtain ⟨live, apart⟩ := Finset.mem_filter.mp member
    exact stays j live apart

open Classical in
/-- Of what is below the removed directory its pages are given back, and the pages above are stranded. -/
theorem Counted.removed_inodes {p₁ : Pool Bytes} {f f' : Bytes} (first : Repaged (N : Set Nat) s.stores.pool p₁ k 0 f)
    (second : Repaged (N : Set Nat) p₁ s'.stores.pool m (size (s.stores.pool.cell m) - 1) f') :
    inodesHeld s'.stores.pool (N.filter fun j => ¬ Below s path j) +
      (lostAbove s path + (1 + ∑ j ∈ (nodesBelow s path).erase k, inodesAt s j)) = inodesHeld s.stores.pool N := by
  have good := counted.good
  obtain ⟨_, _, above⟩ := located.lost good leads
  have live := (good.child_pos located.live leads).1
  have ne := located.ne_parent good leads
  have emptied := first.inodesHeld_eq good.owned (fun j => id) live
  have dropped := second.inodesHeld_eq first.owned (fun j => id) located.live
  rw [Nat.mul_zero, KeepsLeaves.empty.stranded_eq, Nat.add_zero] at emptied
  rw [(first.same good.owned live located.live ne).cell_eq, ← above, emptied] at dropped
  have nodes : nodesBelow s path = N.filter (Below s path ·) := by rw [nodesBelow, counted.treeNodes_eq]
  have reach : walk (child s.stores.pool) 2 (cs ++ [c]) = some k := located.walk_child.trans leads
  have self : k ∈ nodesBelow s path := by
    rw [nodes]
    exact Finset.mem_filter.mpr ⟨live, (located.below_iff good).mpr ⟨_, located.plain, List.prefix_refl _, reach⟩⟩
  have empty : pagesOf (endOf (s'.stores.pool.cell k)) = 0 := by
    have kind := removal.node live
    rw [endOf, kind.2, Nat.mul_zero, pagesOf_short (Nat.zero_le _)]
  have others : ∑ j ∈ (nodesBelow s path).erase k, inodesAt s j =
      ∑ j ∈ (nodesBelow s path).erase k, (1 + pagesOf (endOf (s'.stores.pool.cell j))) := by
    refine Finset.sum_congr rfl fun j member => ?_
    obtain ⟨notK, member⟩ := Finset.mem_erase.mp member
    rw [nodes] at member
    obtain ⟨live', isBelow⟩ := Finset.mem_filter.mp member
    have notM : j ≠ m := by
      rintro rfl
      obtain ⟨pa, _, below, reach'⟩ := (located.below_iff good).mp isBelow
      exact Located.not_below cs c (good.tree.unique reach' located.walks ▸ below)
    rw [counted.inodesAt_eq live', (removal.same j live' notK notM).cell_eq]
  have split := Finset.sum_filter_add_sum_filter_not N (Below s path ·) fun j => 1 + pagesOf (endOf (s'.stores.pool.cell j))
  rw [← nodes, ← Finset.add_sum_erase _ _ self, empty, ← others] at split
  rw [← dropped, inodesHeld, inodesHeld]
  omega

open Classical in
omit within hit in
theorem Counted.removed_blocks (dir : isdir (s.stores.pool.cell k) ≠ 0) :
    blocksHeld s'.stores.pool fl (N.filter fun j => ¬ Below s path j) + ∑ j ∈ nodesBelow s path, blocksAt s j =
      blocksHeld s.stores.pool fl N := by
  have good := counted.good
  have live := (good.child_pos located.live leads).1
  have kept : ∀ j ∈ N, fileBlocks s'.stores.pool j = fileBlocks s.stores.pool j := by
    intro j live'
    by_cases here : j = k
    · rw [here, fileBlocks_dir dir, fileBlocks_dir (removal.node live).1]
    · exact removal.fileBlocks_eq good located.ok live' here
  have nodes : nodesBelow s path = N.filter (Below s path ·) := by rw [nodesBelow, counted.treeNodes_eq]
  have lost : ∑ j ∈ nodesBelow s path, blocksAt s j = ∑ j ∈ N with Below s path j, fileBlocks s.stores.pool j := by
    rw [nodes]
    exact Finset.sum_congr rfl fun j member => counted.blocksAt_eq (Finset.mem_filter.mp member).1
  have same : ∑ j ∈ N with ¬ Below s path j, fileBlocks s'.stores.pool j =
      ∑ j ∈ N with ¬ Below s path j, fileBlocks s.stores.pool j :=
    Finset.sum_congr rfl fun j member => kept j (Finset.mem_filter.mp member).1
  have split := Finset.sum_filter_add_sum_filter_not N (Below s path ·) (fileBlocks s.stores.pool)
  rw [blocksHeld, blocksHeld, same, lost]
  omega

end

namespace Counted

variable {N : Finset Nat} (counted : Counted s N fl)

include counted

theorem rmdir {tail : Bytes} (permit : Permit s (.rmdir path tail)) : Pays s N fl (.rmdir path tail) := by
  classical
  obtain ⟨cs, c, proper, notFile⟩ := permit.vfs
  obtain ⟨m, located, _⟩ := counted.good.located proper
  obtain ⟨m', walks, _, _, outcome⟩ := sfsRmdir_spec counted.good proper tail notFile
  obtain rfl := Option.some.inj (located.walks.symm.trans walks)
  cases leads : child s.stores.pool m c with
  | none =>
    obtain ⟨_, glance⟩ := outcome.gone leads
    have away : ¬ 0 < (pathToInum s path).1.inum := by
      rw [located.absent counted.good leads]
      decide
    exact counted.glance glance (if_neg away) (if_neg away)
  | some k =>
    obtain ⟨_, dir, ⟨r, hit, within, removal⟩, _, p₁, f, f', first, second⟩ :=
      sfsRmdir_removed counted.good proper tail notFile located.walks located.live located.ok leads
    obtain ⟨found, positive, _⟩ := located.lost counted.good leads
    have inodes := counted.removed_inodes located leads within hit removal first second
    have blocks := counted.removed_blocks located leads removal dir
    refine ⟨_, fl, counted.removed located leads within hit removal, ?_, ?_⟩
    · rw [lostInodes, if_pos positive, found, Int.toNat_natCast]
      exact inodes
    · rw [lostBlocks, if_pos positive]
      exact blocks

/-- A request for a new entry pays for the node that it makes. -/
theorem linked {isDir : Prop} {r : Int} (outcome : LinkOutcome (N : Set Nat) s m c isDir r (step s op)) (live : m ∈ N)
    (ok : DirOk s.stores.pool m) (other : ∀ path tail, op ≠ .rmdir path tail) (free : lostInodes s op = 0)
    (free' : lostBlocks s op = 0)
    (effect : ∀ q x, child s.stores.pool m c = none → Made (N : Set Nat) s (step s op) q m x c → Fresh x q →
      (isdir x ≠ 0 ↔ isDir) → (step s op).errno = 0 → Effect (N : Set Nat) s fl op (insert q (N : Set Nat)) fl (step s op)) :
    Pays s N fl op := by
  generalize after : step s op = s' at outcome effect
  cases outcome with
  | «exists» leads glance =>
    subst after
    exact counted.glance glance free free'
  | made absent made fresh kind errno =>
    subst after
    exact counted.made (effect _ _ absent made fresh kind errno) made live ok fresh other free free'

/-- Every permitted request pays for what it loses. -/
theorem pays (permit : Permit s op) : Pays s N fl op := by
  cases op with
  | create path tail =>
    obtain ⟨cs, c, proper, short⟩ := permit.vfs
    obtain ⟨m, walks, live, ok, outcome⟩ := sfsCreate_spec counted.good proper short permit.room
    have located : Located (N : Set Nat) s path cs m c := ⟨proper.eq, proper.plain, walks, live, ok⟩
    refine counted.linked outcome live ok (fun _ _ same => by cases same) rfl rfl fun q x absent made fresh kind errno => ?_
    exact .create located short absent made fresh (not_not.mp fun dir => kind.mp dir) errno
  | mkdir path tail =>
    obtain ⟨cs, c, proper, short⟩ := permit.vfs
    obtain ⟨m, walks, live, ok, outcome⟩ := sfsMkdir_spec counted.good proper short permit.room
    have located : Located (N : Set Nat) s path cs m c := ⟨proper.eq, proper.plain, walks, live, ok⟩
    refine counted.linked outcome live ok (fun _ _ same => by cases same) rfl rfl fun q x absent made fresh kind errno => ?_
    exact .mkdir located short absent made fresh (kind.mpr trivial) errno
  | unlink path tail => exact counted.unlink permit
  | rmdir path tail => exact counted.rmdir permit
  | write path buf size offset => exact counted.write permit
  | truncate path offset => exact counted.truncate permit
  | getattr path => exact counted.glance sfsGetattr_glance rfl rfl
  | «open» path => exact counted.glance (pathToInum_glance s path) rfl rfl
  | read path size offset => exact counted.glance sfsRead_glance rfl rfl
  | readdir path => exact counted.glance sfsReaddir_glance rfl rfl

end Counted

/-- The nodes of some state are counted, and a request changes the totals by what it loses. -/
theorem ledger_step (counted : ∃ N fl, Counted s N fl) (permit : Permit s op) : (∃ N fl, Counted (step s op) N fl) ∧
    inodeTotal (step s op) + lostInodes s op = inodeTotal s ∧ blockTotal (step s op) + lostBlocks s op = blockTotal s := by
  obtain ⟨N, fl, counted⟩ := counted
  obtain ⟨N', fl', counted', inodes, blocks⟩ := counted.pays permit
  rw [counted.inodeTotal_eq, counted'.inodeTotal_eq, counted.blockTotal_eq, counted'.blockTotal_eq]
  exact ⟨⟨N', fl', counted'⟩, inodes, blocks⟩

namespace Initial

variable (initial : Initial s)

include initial

theorem counted : Counted s {2} (List.range' 1025 31743) := by
  refine ⟨by rw [Finset.coe_singleton]; exact initial.good, fun k live _ => ⟨[], List.forall_mem_nil _, ?_⟩⟩
  rw [Finset.mem_coe, Finset.mem_singleton] at live
  rw [live]
  rfl

theorem totals : inodeTotal s = 1022 ∧ blockTotal s = 31743 := by
  have counted := initial.counted
  have dir := counted.good.tree.top.dir
  have spare := initial.spare
  have ends := initial.root_end
  constructor
  · rw [counted.inodeTotal_eq, inodesHeld, Finset.sum_singleton, spare, ends, pagesOf_short (by omega)]
  · rw [counted.blockTotal_eq, blocksHeld, Finset.sum_singleton, fileBlocks_dir dir, List.length_range']

end Initial

/-- The nodes after a run are counted, and the totals are short of what it has lost. -/
theorem run_totals (run : Run step Permit (sfsInit disk) ops s) : (∃ N fl, Counted s N fl) ∧
    inodeTotal s + Run.spent step lostInodes (sfsInit disk) ops = 1022 ∧
      blockTotal s + Run.spent step lostBlocks (sfsInit disk) ops = 31743 := by
  have initial := sfsInit_initial disk
  obtain ⟨inodes, blocks⟩ := initial.totals
  have start : ∃ N fl, Counted (sfsInit disk) N fl := ⟨_, _, initial.counted⟩
  obtain ⟨counted, left⟩ := run.balance (I := fun s => ∃ N fl, Counted s N fl) start fun s op counted permit =>
    (ledger_step counted permit).imp_right And.left
  obtain ⟨_, left'⟩ := run.balance (I := fun s => ∃ N fl, Counted s N fl) start fun s op counted permit =>
    (ledger_step counted permit).imp_right And.right
  exact ⟨counted, left.trans inodes, left'.trans blocks⟩

/-- The inodes and the blocks that are neither free nor in the tree are those
that the requests have lost. -/
theorem run_ledger (run : Run step Permit (sfsInit disk) ops s) :
    inodeTotal s + Run.spent step lostInodes (sfsInit disk) ops = 1022 ∧
      blockTotal s + Run.spent step lostBlocks (sfsInit disk) ops = 31743 := (run_totals run).2

/-- A new directory under the root. -/
theorem Initial.made_dir (initial : Initial s) (plain : Plain c) (short : c.length ≤ 13) (tail : Bytes) :
    Permit s (.mkdir (render [c]) tail) ∧ ∃ k L fl, Good (step s (.mkdir (render [c]) tail)) L fl ∧
      child (step s (.mkdir (render [c]) tail)).stores.pool 2 c = some k ∧
      isdir ((step s (.mkdir (render [c]) tail)).stores.pool.cell k) ≠ 0 := by
  have good := initial.good
  have dir := good.tree.top.dir
  have spare := initial.spare
  have root := initial.root_end
  have absent := child_dnodeImage (c := c) initial.root
  have proper : Proper s (render [c]) ([] ++ [c]) := good.tree.proper_top good.owned plain
  have located : Located {2} s (render [c]) [] 2 c := ⟨rfl, proper.plain, rfl, good.tree.root, good.tree.top⟩
  rw [endOf_dir dir, diEntSize] at root
  have need : inodeNeed s (.mkdir (render [c]) tail) = 1 := by
    simp only [inodeNeed, located.found good, absent, Int.toNat_natCast]
    rw [if_neg (by decide), linkNeed, diEntSize, root]
    have two : size (s.stores.pool.cell 2) = 2 := by omega
    rw [two]
    decide
  have room : inodeNeed s (.mkdir (render [c]) tail) ≤ spareInodes s := by
    rw [need, spareInodes, spare]
    decide
  refine ⟨⟨⟨[], c, proper, short⟩, trivial, Or.inr room⟩, ?_⟩
  obtain ⟨q, _, _, errno, made, _⟩ := sfsMkdir_new good proper short (Or.inr room) rfl absent
  rw [step, Op.run]
  generalize (sfsMkdir s (render [c]) tail).2 = s' at *
  refine ⟨q, _, _, located.made_good good short absent made dnodeImage_fresh.1 errno, ?_, ?_⟩
  · have walks := located.walk_new good made absent
    exact Walk.concat_some.mp walks |>.elim fun k both => by
      obtain rfl : 2 = k := Option.some.inj both.1
      exact both.2
  · rw [made.node good good.tree.root]
    exact dnodeImage_fresh.2

/-- The directory `/a` is made and removed. -/
def removedState : State :=
  step (step (sfsInit Bytes.zero) (.mkdir (render [[97]]) Bytes.zero)) (.rmdir (render [[97]]) Bytes.zero)

/-- The inode of the directory is then lost. -/
theorem run_removed : Run step Permit (sfsInit Bytes.zero)
      [.mkdir (render [[97]]) Bytes.zero, .rmdir (render [[97]]) Bytes.zero] removedState ∧
    0 < Run.spent step lostInodes (sfsInit Bytes.zero)
      [.mkdir (render [[97]]) Bytes.zero, .rmdir (render [[97]]) Bytes.zero] := by
  obtain ⟨permit, k, L, fl, good, leads, dir⟩ := (sfsInit_initial Bytes.zero).made_dir plain_a (by decide) Bytes.zero
  have made : Run step Permit (sfsInit Bytes.zero) [.mkdir (render [[97]]) Bytes.zero] _ := .next .nil permit
  have found := good.found_top plain_a leads
  have proper := good.tree.proper_top good.owned plain_a
  have range := (good.child_pos good.tree.root leads).2.1
  rw [removedState]
  generalize madeIs : step (sfsInit Bytes.zero) (.mkdir (render [[97]]) Bytes.zero) = s at *
  have notFile : ¬ FileAt s [[97]] := by
    rintro ⟨_, file⟩
    rw [proper.namei_eq good, walk, leads, Option.bind_some, walk, toInum, good.owned.inodeLoad_eq
      (good.child_pos good.tree.root leads).1] at file
    exact dir file
  have permit' : Permit s (.rmdir (render [[97]]) Bytes.zero) :=
    ⟨⟨[], [97], proper, notFile⟩, trivial, Or.inr (Nat.zero_le _)⟩
  have lost : 0 < lostInodes s (.rmdir (render [[97]]) Bytes.zero) := by
    have positive : 0 < (pathToInum s (render [[97]])).1.inum := by omega
    simp only [lostInodes]
    rw [if_pos positive]
    omega
  refine ⟨made.next permit', ?_⟩
  rw [Run.spent, Run.spent, madeIs]
  omega

theorem run_ledger_removed :
    let ops : List Op := [.mkdir (render [[97]]) Bytes.zero, .rmdir (render [[97]]) Bytes.zero]
    let s := step (step (sfsInit Bytes.zero) (.mkdir (render [[97]]) Bytes.zero)) (.rmdir (render [[97]]) Bytes.zero)
    0 < Run.spent step lostInodes (sfsInit Bytes.zero) ops ∧
      inodeTotal s + Run.spent step lostInodes (sfsInit Bytes.zero) ops = 1022 ∧
      blockTotal s + Run.spent step lostBlocks (sfsInit Bytes.zero) ops = 31743 :=
  ⟨run_removed.2, run_ledger run_removed.1⟩

end Sfs
