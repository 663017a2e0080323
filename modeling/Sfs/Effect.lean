import Sfs.FileServe
import Sfs.Lib.Run

namespace Sfs

/-- The path leads to entry `c` of directory `m`. -/
structure Located (L : Set Nat) (s : State) (path : CPath) (cs : Path) (m : Nat) (c : List UInt8) : Prop where
  eq : path = render (cs ++ [c])
  plain : ∀ x ∈ cs ++ [c], Plain x
  walks : walk (child s.stores.pool) 2 cs = some m
  live : m ∈ L
  ok : DirOk s.stores.pool m

/-- What a request does to a state with the nodes `L` and the free blocks `fl`:
the nodes, the free blocks and the state afterwards. -/
inductive Effect (L : Set Nat) (s : State) (fl : List Nat) : Op → Set Nat → List Nat → State → Prop
  | none {op s'} : Glance s s' → Effect L s fl op L fl s'
  | create {path tail cs m c q x s'} : Located L s path cs m c → c.length ≤ 13 → child s.stores.pool m c = none →
    Made L s s' q m x c → Fresh x q → isdir x = 0 → s'.errno = 0 →
    Effect L s fl (.create path tail) (insert q L) fl s'
  | mkdir {path tail cs m c q x s'} : Located L s path cs m c → c.length ≤ 13 → child s.stores.pool m c = none →
    Made L s s' q m x c → Fresh x q → isdir x ≠ 0 → s'.errno = 0 →
    Effect L s fl (.mkdir path tail) (insert q L) fl s'
  | unlink {path tail cs m c k r s'} : Located L s path cs m c → child s.stores.pool m c = some k →
    isdir (s.stores.pool.cell k) = 0 → entName s.stores.pool m r = c → r < size (s.stores.pool.cell m) →
    Removal L (L \ {k}) s s' k m r ((blocksOf s.stores.pool k).reverse ++ fl) →
    Cleared L s.stores.pool s'.stores.pool k m →
    Effect L s fl (.unlink path tail) (L \ {k}) ((blocksOf s.stores.pool k).reverse ++ fl) s'
  | rmdir {path tail cs m c k r s'} : Located L s path cs m c → child s.stores.pool m c = some k →
    isdir (s.stores.pool.cell k) ≠ 0 → entName s.stores.pool m r = c → r < size (s.stores.pool.cell m) →
    Removal L L s s' k m r fl → Effect L s fl (.rmdir path tail) L fl s'
  | write {path buf size offset cs m c k n fl' s'} : Located L s path cs m c → child s.stores.pool m c = some k →
    isdir (s.stores.pool.cell k) = 0 → FileStep L s s' k n fl fl' → s'.errno = 0 →
    Effect L s fl (.write path buf size offset) L fl' s'
  | spill {path buf size offset cs m c k n t s'} : Located L s path cs m c → child s.stores.pool m c = some k →
    isdir (s.stores.pool.cell k) = 0 → FileStep L s t k n fl [] → t.errno = 0 → Spilled t s' →
    .freeBlockAllocate (-1) ∈ s'.trace → Effect L s fl (.write path buf size offset) L [] s'
  | truncate {path offset cs m c k fl' s'} : Located L s path cs m c → child s.stores.pool m c = some k →
    isdir (s.stores.pool.cell k) = 0 → FileStep L s s' k (newBSize offset).toNat fl fl' → s'.errno = 0 →
    Effect L s fl (.truncate path offset) L fl' s'

variable {L L' : Set Nat} {s s₁ s' t : State} {fl fl' : List Nat} {k m n : Nat} {c : List UInt8} {cs : Path}
  {path : CPath} {buf : Bytes} {r : Int} {op : Op}

theorem readBlocks_glance {bSize bEnd i : Int} {ptr : Nat} : Glance s (readBlocks s bSize bEnd i buf ptr n).2 := by
  induction n generalizing s i buf ptr with
  | zero => exact .refl s
  | succ n ih =>
    rw [readBlocks]
    split
    · exact (Glance.of_fault _).trans ih
    · exact .refl s

theorem glance_setF (s : State) (f : Bytes) : Glance s { s with f } := rfl

theorem fnodeListing_glance (s : State) (k : Nat) : Glance s (fnodeListing s k).2 := by
  unfold fnodeListing
  exact glance_setF s _

theorem fstreamRead_glance {inum size offset : Int} : Glance s (fstreamRead s inum size offset).2 := by
  unfold fstreamRead
  exact ((fnodeListing_glance s _).trans (.of_fault _)).trans readBlocks_glance

theorem sfsRead_glance {size offset : Nat} : Glance s (sfsRead s path size offset).2 := by
  rw [sfsRead]
  split
  · exact pathToInum_glance s path
  · exact (pathToInum_glance s path).trans fstreamRead_glance

theorem sfsReaddir_glance : Glance s (sfsReaddir s path).2 := by
  rw [sfsReaddir]
  split
  · exact pathToInum_glance s path
  · exact ((pathToInum_glance s path).trans (dnodeListing_glance _ _)).trans (.of_fault _)

theorem sfsGetattr_glance : Glance s (sfsGetattr s path).2 := by
  rw [sfsGetattr]
  split <;> exact pathToInum_glance s path

/-- What a permitted write promises of the file that the path leads to. -/
theorem Permit.write_fits {size offset : Nat} (permit : Permit s (.write path buf size offset))
    (found : (pathToInum s path).1.inum = k) (positive : 0 < k) : WriteFits (Sfs.size (s.stores.pool.cell k)) size offset ∧
      Room s.stores.pool (growNeed s k (writeRows (Sfs.size (s.stores.pool.cell k)) (spareBlocks s) (int32 offset).toNat
        (int32 size).toNat)) (sfsWrite s path buf size offset).2 := by
  obtain ⟨_, fits, room⟩ := permit
  replace fits := fits (by rw [found]; omega)
  rw [found, Int.toNat_natCast] at fits
  simp only [inodeNeed, found, Int.toNat_natCast] at room
  exact ⟨fits, room⟩

theorem Permit.truncate_fits {offset : Nat} (permit : Permit s (.truncate path offset))
    (found : (pathToInum s path).1.inum = k) (positive : 0 < k) :
    TruncateFits (Sfs.size (s.stores.pool.cell k)) (spareBlocks s) offset ∧
      Room s.stores.pool (growNeed s k (newBSize offset).toNat) (sfsTruncate s path offset).2 := by
  obtain ⟨_, fits, room⟩ := permit
  replace fits := fits (by rw [found]; omega)
  rw [found, Int.toNat_natCast] at fits
  simp only [inodeNeed, found, Int.toNat_natCast] at room
  exact ⟨fits, room⟩

namespace Good

variable (good : Good s L fl)

include good

/-- The root is a directory. -/
theorem dirAt_root : DirAt s [] := by
  refine ⟨?_, ?_⟩ <;> rw [namei_root]
  · decide
  · have loaded : inodeLoad s (2 : Nat) = s.stores.pool.cell 2 := good.owned.inodeLoad_eq good.tree.root
    have two : (2 : Int) = (2 : Nat) := rfl
    rw [two, loaded]
    exact good.tree.top.dir

theorem located (proper : Proper s path (cs ++ [c])) : ∃ m, Located L s path cs m c ∧
    (pathToInum s path).1 = ⟨toInum (child s.stores.pool m c), m⟩ := by
  obtain ⟨m, walks, live, ok, lookup⟩ := proper.resolve good
  obtain ⟨s₁, found, _⟩ := lookup s (.refl s)
  exact ⟨m, ⟨proper.eq, proper.plain, walks, live, ok⟩, by rw [found]⟩

/-- A path that does not lead to a directory has a last component. -/
theorem located_file (proper : Proper s path cs) (notDir : ¬ DirAt s cs) : ∃ cs m c, Located L s path cs m c ∧
    (pathToInum s path).1 = ⟨toInum (child s.stores.pool m c), m⟩ ∧
      ∀ k, child s.stores.pool m c = some k → isdir (s.stores.pool.cell k) = 0 := by
  rcases List.eq_nil_or_concat cs with rfl | ⟨cs, c, rfl⟩
  · exact absurd good.dirAt_root notDir
  · rw [List.concat_eq_append] at proper notDir
    obtain ⟨m, located, found⟩ := good.located proper
    exact ⟨cs, m, c, located, found, fun k step =>
      not_dirAt good proper notDir (Walk.concat_some.mpr ⟨m, located.walks, step⟩)⟩

theorem sfsWrite_spec {size offset : Nat} (permit : Permit s (.write path buf size offset)) :
    ∃ cs m c, Located L s path cs m c ∧ WriteOutcome L s m c fl buf (int32 offset).toNat (int32 size).toNat
      (sfsWrite s path buf size offset).1 (sfsWrite s path buf size offset).2 := by
  obtain ⟨q, proper, notDir⟩ := permit.vfs
  obtain ⟨cs, m, c, located, found, file⟩ := good.located_file proper notDir
  refine ⟨cs, m, c, located, ?_⟩
  cases step : child s.stores.pool m c with
  | none =>
    rw [step] at found
    have run : sfsWrite s path buf size offset = (-ENOENT, (pathToInum s path).2) := by
      simp only [sfsWrite, found, toInum]
      exact if_pos (by decide)
    rw [run]
    exact .absent step (pathToInum_glance s path)
  | some k =>
    obtain ⟨_, lower, _⟩ := good.child_pos located.live step
    rw [step] at found
    have inum : (pathToInum s path).1.inum = k := by rw [found, toInum]
    obtain ⟨fits, room⟩ := permit.write_fits inum (by omega)
    exact sfsWrite_outcome good located.live step (file k step) inum size offset fits room

theorem sfsTruncate_spec {offset : Nat} (permit : Permit s (.truncate path offset)) :
    ∃ cs m c, Located L s path cs m c ∧ TruncateOutcome L s m c fl (newBSize offset).toNat
      (sfsTruncate s path offset).1 (sfsTruncate s path offset).2 := by
  obtain ⟨q, proper, notDir⟩ := permit.vfs
  obtain ⟨cs, m, c, located, found, file⟩ := good.located_file proper notDir
  refine ⟨cs, m, c, located, ?_⟩
  cases step : child s.stores.pool m c with
  | none =>
    rw [step] at found
    have run : sfsTruncate s path offset = (-ENOENT, (pathToInum s path).2) := by
      simp only [sfsTruncate, found, toInum]
      exact if_pos (by decide)
    rw [run]
    exact .absent step (pathToInum_glance s path)
  | some k =>
    obtain ⟨_, lower, _⟩ := good.child_pos located.live step
    rw [step] at found
    have inum : (pathToInum s path).1.inum = k := by rw [found, toInum]
    obtain ⟨fits, room⟩ := permit.truncate_fits inum (by omega)
    exact sfsTruncate_outcome good located.live step (file k step) inum offset fits room

/-- What a permitted request does. -/
theorem step_effect (permit : Permit s op) : ∃ L' fl', Effect L s fl op L' fl' (step s op) := by
  obtain ⟨vfs, fits, room⟩ := permit
  cases op with
  | create path tail =>
    obtain ⟨cs, c, proper, short⟩ := vfs
    obtain ⟨m, walks, live, ok, outcome⟩ := sfsCreate_spec good proper short room
    have located : Located L s path cs m c := ⟨proper.eq, proper.plain, walks, live, ok⟩
    change ∃ L' fl', Effect L s fl _ L' fl' (sfsCreate s path tail).2
    generalize sfsCreate s path tail = o at outcome
    obtain ⟨r, s'⟩ := o
    cases outcome with
    | «exists» step glance => exact ⟨L, fl, .none glance⟩
    | made absent made fresh kind errno =>
      exact ⟨_, _, .create located short absent made fresh (not_not.mp fun dir => kind.mp dir) errno⟩
  | mkdir path tail =>
    obtain ⟨cs, c, proper, short⟩ := vfs
    obtain ⟨m, walks, live, ok, outcome⟩ := sfsMkdir_spec good proper short room
    have located : Located L s path cs m c := ⟨proper.eq, proper.plain, walks, live, ok⟩
    change ∃ L' fl', Effect L s fl _ L' fl' (sfsMkdir s path tail).2
    generalize sfsMkdir s path tail = o at outcome
    obtain ⟨r, s'⟩ := o
    cases outcome with
    | «exists» step glance => exact ⟨L, fl, .none glance⟩
    | made absent made fresh kind errno =>
      exact ⟨_, _, .mkdir located short absent made fresh (kind.mpr trivial) errno⟩
  | unlink path tail =>
    obtain ⟨cs, c, proper, notDir⟩ := vfs
    obtain ⟨m, walks, live, ok, outcome⟩ := sfsUnlink_spec good proper tail notDir
    have located : Located L s path cs m c := ⟨proper.eq, proper.plain, walks, live, ok⟩
    change ∃ L' fl', Effect L s fl _ L' fl' (sfsUnlink s path tail).2
    generalize sfsUnlink s path tail = o at outcome
    obtain ⟨r, s'⟩ := o
    cases outcome with
    | absent _ glance => exact ⟨L, fl, .none glance⟩
    | removed step file hit within removal cleared =>
      exact ⟨_, _, .unlink located step file hit within removal cleared⟩
  | rmdir path tail =>
    obtain ⟨cs, c, proper, notFile⟩ := vfs
    obtain ⟨m, walks, live, ok, outcome⟩ := sfsRmdir_spec good proper tail notFile
    have located : Located L s path cs m c := ⟨proper.eq, proper.plain, walks, live, ok⟩
    change ∃ L' fl', Effect L s fl _ L' fl' (sfsRmdir s path tail).2
    generalize sfsRmdir s path tail = o at outcome
    obtain ⟨r, s'⟩ := o
    cases outcome with
    | absent _ glance => exact ⟨L, fl, .none glance⟩
    | removed step dir hit within removal => exact ⟨_, _, .rmdir located step dir hit within removal⟩
  | write path buf size offset =>
    obtain ⟨cs, m, c, located, outcome⟩ := good.sfsWrite_spec ⟨vfs, fits, room⟩
    change ∃ L' fl', Effect L s fl _ L' fl' (sfsWrite s path buf size offset).2
    generalize sfsWrite s path buf size offset = o at outcome
    obtain ⟨r, s'⟩ := o
    cases outcome with
    | absent _ glance => exact ⟨L, fl, .none glance⟩
    | written step file glance stored _ errno =>
      exact ⟨L, _, .write located step file (stored.fileStep.of_glance glance) errno⟩
    | short step file glance stored failed errno spilled =>
      exact ⟨L, [], .spill located step file (stored.fileStep.of_glance glance) errno spilled failed⟩
  | truncate path offset =>
    obtain ⟨cs, m, c, located, outcome⟩ := good.sfsTruncate_spec ⟨vfs, fits, room⟩
    change ∃ L' fl', Effect L s fl _ L' fl' (sfsTruncate s path offset).2
    generalize sfsTruncate s path offset = o at outcome
    obtain ⟨r, s'⟩ := o
    cases outcome with
    | absent _ glance => exact ⟨L, fl, .none glance⟩
    | shrunk step file _ _ change errno => exact ⟨L, _, .truncate located step file change errno⟩
    | grown step file _ _ _ change errno => exact ⟨L, _, .truncate located step file change errno⟩
  | getattr path => exact ⟨L, fl, .none sfsGetattr_glance⟩
  | «open» path => exact ⟨L, fl, .none (pathToInum_glance s path)⟩
  | read path size offset => exact ⟨L, fl, .none sfsRead_glance⟩
  | readdir path => exact ⟨L, fl, .none sfsReaddir_glance⟩

end Good

/-! An inode that is only taken out of the bitmap changes nothing else. -/

theorem Owned.fewer {p p' : Pool Bytes} (owned : Owned L p) (cell : p'.cell = p.cell)
    (fewer : ∀ q, p'.free q = true → p.free q = true) : Owned L p' := by
  obtain ⟨cell', free⟩ := p'
  obtain rfl : cell' = p.cell := cell
  refine ⟨⟨⟨owned.inj, owned.range, fun k live c holds => ?_, owned.own⟩, fun q isFree => owned.low q (fewer q isFree)⟩,
    owned.fits⟩
  have used := owned.used k live c holds
  rw [← Bool.not_eq_true] at used ⊢
  exact fun isFree => used (fewer _ isFree)

/-- The directories have the entries that they had. -/
theorem Tree.of_children {p p' : Pool Bytes} (tree : Tree L p) (dir : ∀ m ∈ L, isdir (p'.cell m) = isdir (p.cell m))
    (ok : ∀ m ∈ L, DirOk p m → DirOk p' m) (empty : ∀ m ∈ L, Sfs.size (p.cell m) = 0 → Sfs.size (p'.cell m) = 0)
    (same : ∀ m ∈ L, ∀ c, child p' m c = child p m c) : Tree L p' := by
  refine tree.shrink tree.root (ok 2 tree.root tree.top) (fun m live isDir => ?_) fun m live c i hit => ?_
  · rw [dir m live] at isDir
    exact (tree.dirs m live isDir).imp (ok m live) (empty m live)
  · rw [same m live] at hit
    obtain ⟨live', _, good⟩ := tree.closed m live c i hit
    refine ⟨live, hit, live', fun isDir => ok i live' (good ?_)⟩
    rwa [dir i live'] at isDir

theorem Tree.congr {p p' : Pool Bytes} (tree : Tree L p) (owned : Owned L p) (same : ∀ m ∈ L, Same p p' m) :
    Tree L p' :=
  tree.of_children (fun m live => by rw [(same m live).cell_eq]) (fun m live ok => ok.congr (same m live) (owned.fits m live))
    (fun m live empty => by rw [(same m live).cell_eq, empty])
    fun m live _ => (same m live).child_eq (owned.fits m live) (tree.dirs m live)

namespace Spilled

variable (spilled : Spilled t s')

include spilled

theorem cell_eq : s'.stores.pool.cell = t.stores.pool.cell := by
  rcases spilled.stores with same | ⟨q, _, _, same⟩ <;> rw [same]
  rw [Stores.setPool_pool, Pool.take_cell]

theorem same (m : Nat) : Same t.stores.pool s'.stores.pool m := fun c _ => by rw [spilled.cell_eq]

theorem data_eq : s'.stores.data = t.stores.data := by
  rcases spilled.stores with same | ⟨q, _, _, same⟩ <;> rw [same]
  rw [Stores.setPool_data]

theorem sup_eq : s'.stores.sup = t.stores.sup := by
  rcases spilled.stores with same | ⟨q, _, _, same⟩ <;> rw [same]
  rw [Stores.setPool_sup]

theorem fewer (q : Nat) (isFree : s'.stores.pool.free q = true) : t.stores.pool.free q = true := by
  rcases spilled.stores with same | ⟨r, _, _, same⟩ <;> rw [same] at isFree
  · exact isFree
  · rw [Stores.setPool_pool, Pool.take_free_iff] at isFree
    exact isFree.1

theorem good (good : Good t L fl) : Good s' L fl := by
  obtain ⟨owned, tree, list, blocks, count, synced, _, sound⟩ := good
  refine ⟨owned.fewer spilled.cell_eq spilled.fewer, tree.congr owned fun m _ => spilled.same m,
    list.congr spilled.sup_eq fun b _ => by rw [spilled.data_eq], blocks.congr list.nodup fun m live file => Or.inl ?_,
    by rw [spilled.sup_eq, count], spilled.synced synced, spilled.errno, spilled.traced.sounds sound⟩
  rw [(spilled.same m).cell_eq] at file
  exact ⟨live, file, (spilled.same m).blocksOf_eq file (owned.fits m live)⟩

end Spilled

namespace Located

variable (located : Located L s path cs m c)

include located

theorem last : Plain c := located.plain c (by simp)

theorem find_none (absent : child s.stores.pool m c = none) : (dirTable s.stores.pool m).find c = none := by
  rwa [child_dir located.ok.dir located.last.notDot located.last.notDotdot] at absent

/-- The entry does not lead back to its directory. -/
theorem ne_parent (good : Good s L fl) (step : child s.stores.pool m c = some k) : m ≠ k :=
  child_ne_parent good located.walks step

theorem found (good : Good s L fl) : (pathToInum s path).1 = ⟨toInum (child s.stores.pool m c), m⟩ := by
  obtain ⟨s', run, _⟩ := pathToInum_spec cs good.owned good.tree
    (fun x member => located.plain x (List.mem_append_left _ member)) located.last located.walks located.ok.dir
  rw [located.eq, run]

theorem made_good {q : Nat} {x : Bytes} (good : Good s L fl) (short : c.length ≤ 13)
    (absent : child s.stores.pool m c = none) (made : Made L s s' q m x c) (fresh : Fresh x q) (errno : s'.errno = 0) :
    Good s' (insert q L) fl :=
  made.good good located.live located.ok (located.find_none absent) located.last.nonempty short located.last.notDot
    located.last.notDotdot fresh errno

end Located

/-- The invariants hold after a permitted request. -/
theorem Effect.good (effect : Effect L s fl op L' fl' s') (good : Good s L fl) : Good s' L' fl' := by
  cases effect with
  | none glance => exact good.glance glance
  | create located short absent made fresh _ errno => exact located.made_good good short absent made fresh errno
  | mkdir located short absent made fresh _ errno => exact located.made_good good short absent made fresh errno
  | unlink located step file hit within removal _ =>
    exact removal.good good located.live (located.ne_parent good step) located.ok within hit located.last.notDot
      located.last.notDotdot step
  | rmdir located step dir hit within removal =>
    exact removal.good good located.live (located.ne_parent good step) located.ok within hit located.last.notDot
      located.last.notDotdot step
  | write located step file change errno =>
    exact change.good good (good.child_pos located.live step).1 file errno
  | spill located step file change errno spilled _ =>
    exact spilled.good (change.good good (good.child_pos located.live step).1 file errno)
  | truncate located step file change errno =>
    exact change.good good (good.child_pos located.live step).1 file errno

/-- The invariants hold in every state of a run of permitted requests. -/
theorem run_good {ops : List Op} (good : Good s L fl) (run : Run step Permit s ops s') :
    ∃ L' fl', Good s' L' fl' := by
  refine run.invariant (I := fun s => ∃ L fl, Good s L fl) ⟨L, fl, good⟩ fun t op invariant permit => ?_
  obtain ⟨L, fl, good⟩ := invariant
  obtain ⟨L', fl', effect⟩ := good.step_effect permit
  exact ⟨L', fl', effect.good good⟩

end Sfs
