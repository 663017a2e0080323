import Sfs.Census
import Sfs.PageCount
import Sfs.Places

namespace Sfs

/-- Every inode that is marked used is a node of `L` or one of its pages. -/
def NodeCover (L : Set Nat) (p : Pool Bytes) : Prop := ∀ n, 2 ≤ n → n < 1024 → p.free n = false →
  ∃ k ∈ L, ∃ c, Holds (p.cell k) c ∧ placeNo p.cell k c = n

/-- Every inode that is marked used stands in the tree, and the free ones and
the nodes with their pages make up all of them. -/
def InodesKept (s : State) : Prop :=
  (∀ n, 3 ≤ n → n ≤ 1023 → s.stores.pool.free n = false → ∃ place, Uses s place n) ∧
  ∃ nodes : Finset Nat, (∀ k, k ∈ nodes ↔ InTree s k) ∧
    spareInodes s + ∑ k ∈ nodes, (1 + pagesOf (endOf (inodeLoad s k))) = 1022

/-- No page, node or block is dropped without being given back: no directory
is removed, no index page outlives one of its leaf pages, and no block is missing. -/
def Sparing (s : State) : Op → Prop
  | .unlink path _ => 0 < (pathToInum s path).1.inum →
    let rows := size (inodeLoad s (pathToInum s path).1.parent)
    KeepsLeaves (diEntSize * (rows - 1)) (diEntSize * rows)
  | .rmdir path _ => (pathToInum s path).1.inum < 0
  | .write path buf size offset => Call.freeBlockAllocate (-1) ∉ (step s (.write path buf size offset)).trace
  | .truncate path offset => 0 < (pathToInum s path).1.inum →
    KeepsLeaves (blknumSize * (newBSize offset).toNat) (blknumSize * size (inodeLoad s (pathToInum s path).1.inum))
  | _ => True

/-- A permitted request that gives back what it drops. -/
structure KeepsInodes (s : State) (op : Op) : Prop extends Permit s op where
  sparing : Sparing s op

variable {L L' : Set Nat} {s s' : State} {p p' : Pool Bytes} {fl fl' : List Nat} {e k m n q : Nat} {x f : Bytes}
  {c : List UInt8} {cs : Path} {op : Op} {ops : List Op} {disk : Bytes}

/-- A listing that does not get shorter keeps all its pages. -/
theorem KeepsLeaves.empty : KeepsLeaves 0 e := fun _ _ stays => by omega

/-- The free inodes, in order. -/
def freeInodes (p : Pool Bytes) : List Nat := (List.range 1024).filter (p.free ·)

/-- The inodes that node `k` takes up. -/
def inodesOf (p : Pool Bytes) (k : Nat) : List Nat :=
  k :: ((List.range 264).filter (Wants (endOf (p.cell k)) ·)).map (pageNo p.cell (p.cell k))

theorem length_freeInodes (p : Pool Bytes) : (freeInodes p).length = p.freeCount 1024 := by
  rw [Pool.freeCount, ← List.toFinset_range, ← List.toFinset_filter, List.toFinset_card_of_nodup (List.nodup_range.filter _)]
  simp [freeInodes]

theorem length_inodesOf : (inodesOf p k).length = 1 + pagesOf (endOf (p.cell k)) := by
  rw [inodesOf, List.length_cons, List.length_map, pagesOf, ← List.toFinset_range, Nat.add_comm,
    ← List.toFinset_card_of_nodup (List.nodup_range.filter _), List.toFinset_filter]
  simp

theorem mem_freeInodes : n ∈ freeInodes p ↔ n < 1024 ∧ p.free n = true := by
  rw [freeInodes, List.mem_filter, List.mem_range]

theorem mem_inodesOf : n ∈ inodesOf p k ↔ ∃ c, Holds (p.cell k) c ∧ placeNo p.cell k c = n := by
  rw [inodesOf, List.mem_cons, List.mem_map]
  constructor
  · rintro (rfl | ⟨c, member, rfl⟩)
    · exact ⟨264, .self _, placeNo_self⟩
    · have wants : Wants (endOf (p.cell k)) c := of_decide_eq_true (List.mem_filter.mp member).2
      exact ⟨c, .page wants, placeNo_page wants⟩
  · rintro ⟨c, rfl | wants, rfl⟩
    · exact Or.inl placeNo_self
    · exact Or.inr ⟨c, List.mem_filter.mpr ⟨List.mem_range.mpr wants.1, decide_eq_true wants⟩, (placeNo_page wants).symm⟩

theorem Marked.nodup_inodesOf (marked : Marked L p) (live : k ∈ L) : (inodesOf p k).Nodup := by
  have pages := marked.pagesOk live
  have wants : ∀ c ∈ (List.range 264).filter (Wants (endOf (p.cell k)) ·), Wants (endOf (p.cell k)) c :=
    fun c member => of_decide_eq_true (List.mem_filter.mp member).2
  refine List.nodup_cons.mpr ⟨fun member => ?_, (List.nodup_range.filter _).map_on fun c member c' member' same =>
    pages.inj c c' (wants c member) (wants c' member') same⟩
  obtain ⟨c, member, number⟩ := List.mem_map.mp member
  exact marked.page_ne_node live live (wants c member) number

/-- A node that has been given another list still takes up what is marked used. -/
theorem Repaged.nodeCover (repaged : Repaged L p p' k n f) (owned : Owned L p) (live : k ∈ L)
    (keeps : KeepsLeaves (entrySize (p.cell k) * n) (endOf (p.cell k))) (cover : NodeCover L p) : NodeCover L p' := by
  intro q lower upper used
  have free := repaged.resized.free q
  have notFree : p'.free q ≠ true := by
    rw [used]
    exact Bool.false_ne_true
  cases was : p.free q with
  | true =>
    have new : ∃ c, Wants (entrySize (p.cell k) * n) c ∧ pageNo p'.cell (p'.cell k) c = q := by
      by_contra none
      exact notFree (free.mpr (Or.inl ⟨was, fun c wants same => none ⟨c, wants, same⟩⟩))
    obtain ⟨c, wants, number⟩ := new
    exact ⟨k, live, c, .page (by rwa [repaged.ends]), by rw [placeNo_page wants, number]⟩
  | false =>
    obtain ⟨j, live', c, holds, number⟩ := cover q lower upper was
    by_cases here : j = k
    · subst here
      rcases holds with rfl | had
      · exact ⟨j, live, 264, .self _, by rw [placeNo_self] at number ⊢; exact number⟩
      · rw [placeNo_page had] at number
        have wants : Wants (entrySize (p.cell j) * n) c := by
          by_contra dropped
          exact notFree (free.mpr (Or.inr ⟨c, keeps.freed had dropped, number⟩))
        refine ⟨j, live, c, .page (by rwa [repaged.ends]), ?_⟩
        rw [placeNo_page wants, repaged.resized.kept c wants had, number]
    · have same := repaged.same owned live live' here
      exact ⟨j, live', c, by rwa [same.cell_eq], by rw [same.placeNo_eq holds, number]⟩

/-- So does a file system with a new node. -/
theorem Made.nodeCover (made : Made L s s' q m x c) (good : Good s L fl) (live : m ∈ L)
    (cover : NodeCover L s.stores.pool) : NodeCover (insert q L) s'.stores.pool := by
  obtain ⟨buf, repaged⟩ := made.repaged
  obtain ⟨owned₁, same₁⟩ := made.owned₁ good
  refine repaged.nodeCover owned₁ (Set.mem_insert_of_mem _ live) (.of_le ?_) fun n lower upper used => ?_
  · rw [(same₁ m live).cell_eq, endOf]
    exact Nat.mul_le_mul_left _ (Nat.le_succ _)
  · by_cases here : n = q
    · exact ⟨q, Set.mem_insert _ _, 264, .self _, by rw [placeNo_self, here]⟩
    · have was : s.stores.pool.free n = false := by
        rw [Pool.write_free] at used
        exact Bool.eq_false_iff.mpr fun isFree => Bool.eq_false_iff.mp used ((Pool.take_free_iff _).mpr ⟨isFree, here⟩)
      obtain ⟨k, live', c, holds, number⟩ := cover n lower upper was
      exact ⟨k, Set.mem_insert_of_mem _ live', c, by rwa [(same₁ k live').cell_eq],
        by rw [(same₁ k live').placeNo_eq holds, number]⟩

/-- A node without pages is released. -/
theorem NodeCover.give (cover : NodeCover L p) (empty : endOf (p.cell k) = 0) : NodeCover (L \ {k}) (p.give k) := by
  intro n lower upper used
  have apart : ¬ (p.free n = true ∨ n = k) := fun either => Bool.eq_false_iff.mp used ((Pool.give_free_iff p).mpr either)
  obtain ⟨notFree, ne⟩ := not_or.mp apart
  obtain ⟨j, live, c, holds, number⟩ := cover n lower upper (Bool.eq_false_iff.mpr notFree)
  refine ⟨j, ⟨live, ?_⟩, c, holds, number⟩
  rintro rfl
  rcases holds with rfl | wants
  · rw [placeNo_self] at number
    exact ne number.symm
  · have before := wants.2
    omega

/-- A file is cleared, and its name is dropped. -/
theorem Cleared.nodeCover (cleared : Cleared L p p' k m) (owned : Owned L p) (live : k ∈ L) (live' : m ∈ L) (ne : m ≠ k)
    (keeps : KeepsLeaves (entrySize (p.cell m) * (size (p.cell m) - 1)) (endOf (p.cell m))) (cover : NodeCover L p) :
    NodeCover (L \ {k}) p' := by
  obtain ⟨p₁, f, buf, first, second⟩ := cleared
  have same : (p₁.give k).cell m = p.cell m := (first.same owned live live' ne).cell_eq
  refine second.nodeCover (first.owned.give live) ⟨live', ne⟩ ?_ ((first.nodeCover owned live ?_ cover).give ?_)
  · rw [same]
    exact keeps
  · exact .empty
  · rw [first.ends, Nat.mul_zero]

theorem FileStep.nodeCover (change : FileStep L s s' k n fl fl') (good : Good s L fl) (live : k ∈ L)
    (keeps : KeepsLeaves (entrySize (s.stores.pool.cell k) * n) (endOf (s.stores.pool.cell k)))
    (cover : NodeCover L s.stores.pool) : NodeCover L s'.stores.pool := by
  obtain ⟨f, repaged⟩ := change.repaged
  exact repaged.nodeCover good.owned live keeps cover

namespace Good

variable (good : Good s L fl)

include good

/-- The inode and the directory that a path is found to lead to. -/
theorem path_found {path : CPath} (located : Located L s path cs m c) (leads : child s.stores.pool m c = some k) :
    (pathToInum s path).1 = ⟨k, m⟩ ∧ 0 < k ∧ inodeLoad s k = s.stores.pool.cell k ∧
      inodeLoad s m = s.stores.pool.cell m := by
  obtain ⟨live, lower, _⟩ := good.child_pos located.live leads
  have found := located.found good
  rw [leads, toInum] at found
  exact ⟨found, by omega, good.owned.inodeLoad_eq live, good.owned.inodeLoad_eq located.live⟩

/-- A write that gets its blocks only adds pages. -/
theorem write_nodeCover {path : CPath} {buf : Bytes} {size offset : Nat} (permit : Permit s (.write path buf size offset))
    (sparing : Sparing s (.write path buf size offset)) (cover : NodeCover L s.stores.pool) :
    NodeCover L (step s (.write path buf size offset)).stores.pool := by
  obtain ⟨cs, m, c, located, outcome⟩ := good.sfsWrite_spec permit
  rw [Sparing, step, Op.run] at sparing
  change NodeCover L (sfsWrite s path buf size offset).2.stores.pool
  generalize sfsWrite s path buf size offset = o at *
  obtain ⟨r, s'⟩ := o
  cases outcome with
  | absent _ glance => rwa [glance.stores_eq]
  | written leads file glance stored _ errno =>
    obtain ⟨f, repaged⟩ := stored.repaged
    rw [glance.stores_eq] at repaged
    refine repaged.nodeCover good.owned (good.child_pos located.live leads).1 (.of_le ?_) cover
    rw [endOf]
    exact Nat.mul_le_mul_left _ (Nat.le_max_right _ _)
  | short _ _ _ _ failed => exact absurd failed sparing

/-- With nothing dropped every inode that is marked used is still a node or a page. -/
theorem nodeCover (effect : Effect L s fl op L' fl' s') (after : step s op = s') (permit : Permit s op) (sparing : Sparing s op)
    (cover : NodeCover L s.stores.pool) : NodeCover L' s'.stores.pool := by
  cases effect with
  | none glance => rwa [glance.stores_eq]
  | create located _ _ made => exact made.nodeCover good located.live cover
  | mkdir located _ _ made => exact made.nodeCover good located.live cover
  | unlink located leads file hit within removal cleared =>
    obtain ⟨found, positive, _, loaded⟩ := good.path_found located leads
    have keeps := sparing (by rw [found]; exact Int.natCast_pos.mpr positive)
    simp only [found, loaded] at keeps
    refine cleared.nodeCover good.owned (good.child_pos located.live leads).1 located.live
      (located.ne_parent good leads) ?_ cover
    rw [endOf, entrySize, if_pos located.ok.dir]
    exact keeps
  | rmdir located leads =>
    obtain ⟨found, positive, _⟩ := good.path_found located leads
    rw [Sparing, found] at sparing
    exact absurd sparing (not_lt.mpr (Int.natCast_nonneg _))
  | write => exact after ▸ good.write_nodeCover permit sparing cover
  | spill _ _ _ _ _ _ failed =>
    rw [Sparing, after] at sparing
    exact absurd failed sparing
  | truncate located leads file change errno =>
    obtain ⟨found, positive, loaded, _⟩ := good.path_found located leads
    have keeps := sparing (by rw [found]; exact Int.natCast_pos.mpr positive)
    rw [found, loaded] at keeps
    refine change.nodeCover good (good.child_pos located.live leads).1 ?_ cover
    rw [endOf_file file, entrySize, if_neg (not_not.mpr file)]
    exact keeps

/-- No directory is removed, so nothing is cut off. -/
theorem spared_nodes (keeps : KeepsInodes s op) : Spared True L s op := by
  rintro p tail rfl k live _ q plain reach ⟨rest, rfl⟩
  have sparing := keeps.sparing
  rw [Walk.append] at reach
  obtain ⟨j, above, _⟩ := Option.bind_eq_some_iff.mp reach
  have leads := (good.tree.leads_iff good.owned fun c member => plain c (List.mem_append_left _ member)).mpr above
  have found : (pathToInum s (render p)).1.inum = j := leads.found
  rw [Sparing, found] at sparing
  exact absurd sparing (not_lt.mpr (Int.natCast_nonneg _))

/-- An entry that is followed is a row past the special ones. -/
theorem leads_row (live : k ∈ L) (ok : DirOk s.stores.pool k) (leads : child s.stores.pool k c = some m) :
    ∃ j < (listedRows s k).rows, (listedRows s k).key j ≠ [46] ∧ (listedRows s k).key j ≠ [46, 46] ∧
      (listedRows s k).val j = m := by
  obtain ⟨_, notDot, notDotdot, found⟩ := child_some leads
  obtain ⟨j, within, name, value⟩ := (Table.find_some ok.distinct).mp found
  obtain ⟨rows, same⟩ := good.owned.listed_agree live ok.dir
  obtain ⟨name', value'⟩ := same j within
  rw [name] at name'
  exact ⟨j, by rwa [rows], by rwa [name'], by rwa [name'], value'.trans value⟩

theorem inTree_of_walk {q : Path} (reach : walk (child s.stores.pool) 2 q = some k) : InTree s k := by
  induction q using List.reverseRecOn generalizing k with
  | nil =>
    obtain rfl := Option.some.inj reach
    exact .root
  | append_singleton cs c ih =>
    obtain ⟨m, above, leads⟩ := Walk.concat_some.mp reach
    obtain ⟨live, ok⟩ := good.tree.reach above
    have dir := (child_some leads).1
    obtain ⟨j, within, notDot, notDotdot, rfl⟩ := good.leads_row live (ok dir) leads
    have loaded : inodeLoad s m = s.stores.pool.cell m := good.owned.inodeLoad_eq live
    rw [← loaded] at dir
    exact .entry (ih above) dir within notDot notDotdot

omit good in
theorem uses_entry (inTree : InTree s k) (past : k ≠ 2) : ∃ place, Uses s place k := by
  cases inTree with
  | root => exact absurd rfl past
  | @entry m j above dir within notDot notDotdot => exact ⟨.entry m j, .entry above dir within notDot notDotdot⟩

theorem inTree_iff (reachable : Reachable True L s) : InTree s k ↔ k ∈ L := by
  refine ⟨fun inTree => (good.inTree inTree).1, fun live => ?_⟩
  obtain ⟨q, _, reach⟩ := reachable k live (Or.inr trivial)
  exact good.inTree_of_walk reach

/-- A node other than the root is an entry, and a page is in a slot. -/
theorem uses_of_holds (reachable : Reachable True L s) (live : k ∈ L) {c : Nat} (holds : Holds (s.stores.pool.cell k) c)
    (past : placeNo s.stores.pool.cell k c ≠ 2) : ∃ place, Uses s place (placeNo s.stores.pool.cell k c) := by
  have inTree := (good.inTree_iff reachable).mpr live
  have loaded : inodeLoad s k = s.stores.pool.cell k := good.owned.inodeLoad_eq live
  rcases holds with rfl | wants
  · rw [placeNo_self] at past ⊢
    exact uses_entry inTree past
  · rw [placeNo_page wants]
    rcases code_cases wants.1 with first | ⟨i, small, rfl⟩ | ⟨i, small, j, within, rfl⟩
    · have reaches := (wants_first first).mp wants
      rw [← loaded] at reaches
      rw [pageNo_first first, ← loaded]
      exact ⟨_, .pnum inTree first reaches⟩
    · have reaches := (wants_index small).mp wants
      rw [← loaded] at reaches
      rw [pageNo_index, ← loaded]
      exact ⟨_, .exPnum inTree small reaches⟩
    · have index := wants.index_of_leaf small within
      have range := good.owned.range k live _ (.page index)
      have reaches := (wants_leaf small within).mp wants
      rw [placeNo_page index, pageNo_index] at range
      have page : inodeLoad s (exPnum (inodeLoad s k) i) = s.stores.pool.cell (exPnum (s.stores.pool.cell k) i) := by
        rw [loaded, inodeLoad_cell (by omega) (by omega)]
      rw [← loaded] at reaches
      rw [pageNo_leaf within, ← page]
      exact ⟨_, .exnum inTree small within reaches⟩

theorem inodesOf_range (live : k ∈ L) (member : n ∈ inodesOf s.stores.pool k) :
    2 ≤ n ∧ n < 1024 ∧ s.stores.pool.free n = false := by
  obtain ⟨c, holds, rfl⟩ := mem_inodesOf.mp member
  have range := good.owned.range k live c holds
  exact ⟨range.1, range.2, good.owned.used k live c holds⟩

theorem inodesOf_nodup (live : k ∈ L) : (inodesOf s.stores.pool k ++ freeInodes s.stores.pool).Nodup := by
  refine List.nodup_append'.mpr ⟨good.owned.nodup_inodesOf live, List.nodup_range.filter _, fun n held isFree => ?_⟩
  obtain ⟨_, _, used⟩ := good.inodesOf_range live held
  rw [(mem_freeInodes.mp isFree).2] at used
  exact Bool.false_ne_true used.symm

theorem inodesOf_apart (live : k ∈ L) (live' : m ∈ L) (ne : k ≠ m) :
    (inodesOf s.stores.pool k).Disjoint (inodesOf s.stores.pool m) := fun n held held' => by
  obtain ⟨c, holds, number⟩ := mem_inodesOf.mp held
  obtain ⟨c', holds', number'⟩ := mem_inodesOf.mp held'
  exact ne (good.owned.inj k live m live' c c' holds holds' (number.trans number'.symm)).1

/-- The used inodes of the tree are the nodes and their pages, each once. -/
theorem inodesKept (reachable : Reachable True L s) (cover : NodeCover L s.stores.pool) : InodesKept s := by
  classical
  have tree := fun k => good.inTree_iff (k := k) reachable
  refine ⟨fun n lower upper used => ?_, (Finset.range 1024).filter (InTree s ·), fun k => ?_, ?_⟩
  · obtain ⟨k, live, c, holds, rfl⟩ := cover n (by omega) (by omega) used
    exact good.uses_of_holds reachable live holds (by omega)
  · rw [Finset.mem_filter, Finset.mem_range, and_iff_right_iff_imp]
    intro inTree
    have range := good.owned.node_range ((tree k).mp inTree)
    omega
  · have total : (freeInodes s.stores.pool).length +
        ∑ k ∈ (Finset.range 1024).filter (InTree s ·), (inodesOf s.stores.pool k).length = (Finset.Ico 2 1024).card := by
      have members : ∀ k ∈ (Finset.range 1024).filter (InTree s ·), k ∈ L := fun k member =>
        (tree k).mp (Finset.mem_filter.mp member).2
      refine Partition.length_add_sum (fun n isFree => ?_) (fun k member n held => ?_) (List.nodup_range.filter _)
        (fun k member => good.inodesOf_nodup (members k member))
        (fun k member k' member' ne => good.inodesOf_apart (members k member) (members k' member') ne) fun n within => ?_
      · obtain ⟨upper, marked⟩ := mem_freeInodes.mp isFree
        exact Finset.mem_Ico.mpr ⟨good.owned.low n marked, upper⟩
      · obtain ⟨lower, upper, _⟩ := good.inodesOf_range (members k member) held
        exact Finset.mem_Ico.mpr ⟨lower, upper⟩
      · obtain ⟨lower, upper⟩ := Finset.mem_Ico.mp within
        cases marked : s.stores.pool.free n with
        | true => exact Or.inl (mem_freeInodes.mpr ⟨upper, marked⟩)
        | false =>
          obtain ⟨k, live, c, holds, number⟩ := cover n lower upper marked
          have range := good.owned.node_range live
          exact Or.inr ⟨k, Finset.mem_filter.mpr ⟨Finset.mem_range.mpr range.2, (tree k).mpr live⟩,
            mem_inodesOf.mpr ⟨c, holds, number⟩⟩
    have lengths : ∑ k ∈ (Finset.range 1024).filter (InTree s ·), (1 + pagesOf (endOf (inodeLoad s k))) =
        ∑ k ∈ (Finset.range 1024).filter (InTree s ·), (inodesOf s.stores.pool k).length :=
      Finset.sum_congr rfl fun k member => by
        rw [length_inodesOf, good.owned.inodeLoad_eq ((tree k).mp (Finset.mem_filter.mp member).2)]
    rw [Nat.card_Ico, length_freeInodes] at total
    rw [lengths]
    exact total

end Good

/-- In every run of requests that give back what they drop, no inode gets lost. -/
theorem run_inodesKept (run : Run step KeepsInodes (sfsInit disk) ops s) : InodesKept s := by
  have initial := sfsInit_initial disk
  have start := initial.good
  have holds : ∃ L fl, Good s L fl ∧ Reachable True L s ∧ NodeCover L s.stores.pool := by
    refine run.invariant (I := fun s => ∃ L fl, Good s L fl ∧ Reachable True L s ∧ NodeCover L s.stores.pool)
      ⟨_, _, start, ?_, fun n lower upper used => ?_⟩ fun t op holds keeps => ?_
    · rintro k rfl _
      exact ⟨[], by simp, rfl⟩
    · rw [initial.free] at used
      refine ⟨2, rfl, 264, .self _, ?_⟩
      rw [placeNo_self]
      have := of_decide_eq_false used
      omega
    · obtain ⟨L, fl, good, reachable, cover⟩ := holds
      obtain ⟨L', fl', effect⟩ := good.step_effect keeps.toPermit
      exact ⟨L', fl', effect.good good, effect.reachable good (good.spared_nodes keeps) reachable,
        good.nodeCover effect rfl keeps.toPermit keeps.sparing cover⟩
  obtain ⟨L, fl, good, reachable, cover⟩ := holds
  exact good.inodesKept reachable cover

/-- With `/a` made, its inode and that of the root are in use. -/
theorem run_inodesKept_first : InodesKept firstState := run_inodesKept (.next .nil ⟨ready_first.permit, trivial⟩)

end Sfs
