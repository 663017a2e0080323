import Sfs.Isolation
import Sfs.Names
import Sfs.Success

namespace Sfs

/-- The pending error is the one from before, or it is `ENOSPC` and inode
slot 0, which holds the superblock, has been written. -/
structure Strayed (s s' : State) : Prop where
  later : Later s s'
  errno : s'.errno = s.errno ∨ s'.errno = -ENOSPC ∧ Call.inodeDump 0 ∈ s'.trace

/-- `sfs_create` or `sfs_mkdir`. -/
inductive IsMake : Op → Prop
  | create {path : CPath} {tail : Bytes} : IsMake (.create path tail)
  | mkdir {path : CPath} {tail : Bytes} : IsMake (.mkdir path tail)

/-- What a request for a new entry returns. -/
def makeResult (s : State) (op : Op) : Int :=
  if 0 < (pathToInum s op.path).1.inum then -EEXIST else if inodeNeed s op ≤ spareInodes s then 0 else -ENOSPC

variable {L : Set Nat} {s s' s₁ t : State} {fl : List Nat} {k m n q i j : Nat} {c : List UInt8} {cs : Path} {path : CPath}
  {tail buf inode lv1 filename item : Bytes} {ptrEnd cacheEnd ptr : Nat} {x : Nat → Bytes} {op : Op} {ops : List Op}
  {disk : Bytes} {r : Int}

theorem freeInodePop_small : (freeInodePop s).1 < 65536 := by
  rcases freeInodePop_cases s with ⟨q, disk, run, upper, _⟩ | ⟨run, _⟩
  · rw [run]
    omega
  · rw [run]
    exact Nat.zero_lt_succ _

theorem inodeDump_called (s : State) (inum : Int) (x : Bytes) : Call.inodeDump inum ∈ (inodeDump s inum x).trace := by
  simp only [inodeDump]
  split
  · exact List.mem_cons_self ..
  · rw [blockWrite_trace]
    exact List.mem_cons_self ..

namespace Strayed

theorem of_eq (trace : s'.trace = s.trace) (errno : s'.errno = s.errno) : Strayed s s' := ⟨.of_eq trace, Or.inl errno⟩

theorem trans (first : Strayed s s') (second : Strayed s' t) : Strayed s t := by
  refine ⟨first.later.trans second.later, ?_⟩
  rcases second.errno with same | failed
  · rw [same]
    exact first.errno.imp_right fun failed => ⟨failed.1, second.later _ failed.2⟩
  · exact Or.inr failed

theorem dump (s : State) (inum : Int) (x : Bytes) : Strayed s (inodeDump s inum x) :=
  ⟨later_inodeDump s inum x, Or.inl (inodeDump_errno s inum x)⟩

theorem push (s : State) (q : Nat) : Strayed s (freeInodePush s q) :=
  ⟨later_freeInodePush s q, Or.inl (freeInodePush_errno s q)⟩

/-- Every number that is popped is dumped after it, the 0 of a failed pop like any other. -/
theorem pop (between : Strayed (freeInodePop s).2 t) (x : Bytes) : Strayed s (inodeDump t (freeInodePop s).1 x) := by
  refine ⟨(later_freeInodePop s).trans (between.later.trans (later_inodeDump _ _ _)), ?_⟩
  rw [inodeDump_errno]
  have errno := between.errno
  rcases freeInodePop_cases s with ⟨q, disk, run, _⟩ | ⟨run, _⟩
  · rw [run] at errno ⊢
    exact errno.imp_right fun failed => ⟨failed.1, later_inodeDump _ _ _ _ failed.2⟩
  · rw [run] at errno ⊢
    have failed : t.errno = -ENOSPC := errno.elim id And.left
    exact Or.inr ⟨failed, inodeDump_called t 0 x⟩

theorem setPages : Strayed s (setPages buf ptrEnd cacheEnd s inode ptr i n).1 := by
  induction n generalizing s inode ptr i with
  | zero => exact .of_eq rfl rfl
  | succ n ih =>
    simp only [Sfs.setPages]
    split
    · split
      · exact (push _ _).trans ih
      · exact ih
    · split
      · rw [pnum_setPnum_self freeInodePop_small]
        exact (pop (.of_eq rfl rfl) _).trans ih
      · exact (dump _ _ _).trans ih

theorem releaseLeaves : Strayed s (releaseLeaves cacheEnd s lv1 ptr j n) := by
  induction n generalizing s ptr j with
  | zero => exact .of_eq rfl rfl
  | succ n ih =>
    simp only [Sfs.releaseLeaves]
    split
    · exact (push _ _).trans ih
    · exact ih

theorem setLeaves : Strayed s (setLeaves buf ptrEnd cacheEnd s lv1 ptr j n).1 := by
  induction n generalizing s lv1 ptr j with
  | zero => exact .of_eq rfl rfl
  | succ n ih =>
    simp only [Sfs.setLeaves]
    split
    · split
      · rw [exnum_setExnum_self freeInodePop_small]
        exact (pop (.of_eq rfl rfl) _).trans ih
      · exact (dump _ _ _).trans ih
    · exact ih

theorem setIndex : Strayed s (setIndex buf ptrEnd cacheEnd s inode ptr i n).1 := by
  induction n generalizing s inode ptr i with
  | zero => exact .of_eq rfl rfl
  | succ n ih =>
    simp only [Sfs.setIndex]
    split
    · split
      · exact (releaseLeaves.trans (push _ _)).trans ih
      · exact ih
    · split
      next fresh =>
        -- the index page is dumped only after its leaf pages
        rw [newLeaves_eq fresh, exPnum_setExPnum_self freeInodePop_small]
        exact (pop setLeaves _).trans ih
      next => exact (setLeaves.trans (dump _ _ _)).trans ih

theorem listingSet {entry inum : Nat} {newsize : Int} : Strayed s (listingSet entry buf s inum newsize) := by
  simp only [Sfs.listingSet]
  exact (setPages.trans setIndex).trans (dump _ _ _)

theorem setD (s : State) (bad : Bool) (d : Bytes) : Strayed s { s.fault bad with d } := .of_eq rfl rfl

theorem dnodeAppend (few : size (inodeLoad s (ushort m)) + 1 < 2086) : Strayed s (dnodeAppend s m item) := by
  have rows := dnodeListing_rows s (ushort m)
  have listed : Strayed s (dnodeListing s (ushort m)).2 := .of_eq (dnodeListing_trace s (ushort m)) (by cases s; rfl)
  simp only [Sfs.dnodeAppend]
  generalize dnodeListing s (ushort m) = l at *
  have start := listed.trans (setD l.2 (decide (l.1 ≥ DENTRY_MAX_SIZE))
    ((l.2.fault (decide (l.1 ≥ DENTRY_MAX_SIZE))).d.copy (diEntSize * l.1) item 0 diEntSize))
  generalize ({ l.2.fault (decide (l.1 ≥ DENTRY_MAX_SIZE)) with
    d := (l.2.fault (decide (l.1 ≥ DENTRY_MAX_SIZE))).d.copy (diEntSize * l.1) item 0 diEntSize } : State) = s₂ at *
  rw [← rows] at few
  have set := dnodeListingSet_eq (s := s₂) (k := ushort m) few
  rw [Nat.cast_add, Nat.cast_one] at set
  rw [set]
  exact (start.trans listingSet).trans (dump _ _ _)

end Strayed

/-- A dump to slot 0 replaces the superblock. -/
theorem stores_inodeDump_zero (s : State) (x : Bytes) :
    (inodeDump s (0 : Nat) x).stores = s.stores.setSup (x.take 128) := by
  have slots := slots_inodeDump (s := s) (k := 0) (x := x) (by omega)
  apply Stores.eq_of_parts
  · rw [sup_slot, slots, Pool.write_cell_self, Stores.setSup_sup]
  · funext r
    rw [Stores.setSup_pool]
    by_cases lower : 1 ≤ r
    · rw [← slots_cell lower, ← slots_cell lower, slots, Pool.write_cell_of_ne _ _ (by omega)]
    · exact (if_neg fun both => lower both.1).trans (if_neg fun both => lower both.1).symm
  · rw [bitmap_inodeDump (by omega), Stores.setSup_pool]
  · rw [data_inodeDump (by omega), Stores.setSup_data]

/-- An entry that was added without an error had room for its page. -/
theorem dnodeAppend_room (owned : Owned L s.stores.pool) (live : k ∈ L) (dir : isdir (s.stores.pool.cell k) ≠ 0)
    (few : size (s.stores.pool.cell k) + 1 < 2086) (item : Bytes) (clear : 0 ≤ (dnodeAppend s k item).errno) :
    pageCount (diEntSize * (size (s.stores.pool.cell k) + 1)) (diEntSize * size (s.stores.pool.cell k)) ≤
      s.stores.pool.freeCount 1024 := by
  obtain ⟨d, listed, _⟩ := owned.dnodeListing_spec live dir
  have range := owned.node_range live
  have ends := endOf_dir dir
  have entry : entrySize (s.stores.pool.cell k) = diEntSize := if_pos dir
  generalize rows : size (s.stores.pool.cell k) = n at *
  have short : ushort k = k := ushort_nat (by omega)
  have inside : decide (n ≥ DENTRY_MAX_SIZE) = false := by simp only [DENTRY_MAX_SIZE]; simp; omega
  simp only [dnodeAppend, short, listed, inside, fault_false, inodeDump_errno] at clear
  generalize d.copy (diEntSize * n) item 0 diEntSize = d' at *
  have start : ({ s with d := d' } : State).stores = s.stores := stores_congr rfl
  generalize ({ s with d := d' } : State) = s₁ at *
  have set := dnodeListingSet_eq (s := s₁) (k := k) few
  rw [Nat.cast_add, Nat.cast_one] at set
  rw [set, ← entry] at clear
  have marked : Marked L s₁.stores.pool := by rw [start]; exact owned.toMarked
  rw [← start] at clear
  have room := marked.room_of_clear (n := n + 1) live rfl (by omega) clear
  rw [start, entry, ends] at room
  exact room

theorem sfsLink_result (s : State) (inum pInum : Int) (filename : Bytes) :
    (sfsLink s inum pInum filename).1 = (dnodeAppend s pInum (diEntC filename (ushort inum))).errno := by
  simp only [sfsLink]
  generalize dnodeAppend s pInum (diEntC filename (ushort inum)) = t
  split <;> rfl

/-- A number has been popped, and the image for it dumped: the parent is as it was. -/
theorem popped_parent (owned : Owned L s.stores.pool) (live : m ∈ L) (image : ∀ q < 1024, ino (x q) = q ∧ endOf (x q) ≤ 96)
    (run : inodeDump (freeInodePop s).2 (freeInodePop s).1 (x (freeInodePop s).1) = s₁) :
    ∃ L', Owned L' s₁.stores.pool ∧ m ∈ L' ∧ s₁.stores.pool.cell m = s.stores.pool.cell m ∧
      (s₁.errno = 0 → s₁.stores.pool.freeCount 1024 + 1 = s.stores.pool.freeCount 1024) := by
  have errno : s₁.errno = (freeInodePop s).2.errno := by rw [← run, inodeDump_errno]
  rcases freeInodePop_cases s with ⟨q, disk, popped, upper, free, _, stores⟩ | ⟨popped, _⟩
  · have first : (freeInodePop s).1 = q := by rw [popped]
    have lower := owned.low q free
    have pool : s₁.stores.pool = (s.stores.pool.take q).write q ((x q).take 128) := by
      rw [← run, first, stores_inodeDump (by omega) (by omega), stores, Stores.setPool_pool, Stores.setPool_pool]
    obtain ⟨inoX, endX⟩ := image q upper
    have same : endOf ((x q).take 128) = endOf (x q) :=
      endOf_congr (Bytes.take_apply_of_lt (by omega)) (Bytes.get16_take (by omega))
    obtain ⟨owned', others⟩ := owned.insert free upper ((Bytes.get16_take (by omega)).trans inoX) (same.trans_le endX)
    rw [pool]
    refine ⟨_, owned', Set.mem_insert_of_mem _ live, (others m live).cell_eq, fun _ => ?_⟩
    rw [Pool.freeCount, Pool.write_free]
    exact Pool.take_freeCount free upper
  · have first : (freeInodePop s).1 = 0 := by rw [popped]
    have disk : (freeInodePop s).2.disk = s.disk := by rw [popped]
    have failed : s₁.errno = -ENOSPC := by rw [errno, popped]
    have stores : s₁.stores = s.stores.setSup ((x 0).take 128) := by
      rw [← run, first, stores_inodeDump_zero, stores_congr disk]
    rw [stores, failed, Stores.setSup_pool]
    exact ⟨L, owned, live, rfl, fun clear => absurd clear (by decide)⟩

/-- A new node for which there are too few inodes: the request fails, and
somewhere on the way slot 0 is written. -/
theorem newNode_fails (good : Good s L fl) (live : m ∈ L) (ok : DirOk s.stores.pool m)
    (image : ∀ q < 1024, ino (x q) = q ∧ endOf (x q) ≤ 96) (lack : s.stores.pool.freeCount 1024 < linkNeed s.stores.pool m)
    (filename : Bytes) : (newNode s x m filename).1 = -ENOSPC ∧ Call.inodeDump 0 ∈ (newNode s x m filename).2.trace := by
  have rows := good.tree.rows_le good.owned live ok
  have range := good.owned.node_range live
  have number : ushort m = m := ushort_nat (by omega)
  have strayed : Strayed s (inodeDump (freeInodePop s).2 (freeInodePop s).1 (x (freeInodePop s).1)) := .pop (.of_eq rfl rfl) _
  simp only [newNode]
  generalize startIs : inodeDump (freeInodePop s).2 (freeInodePop s).1 (x (freeInodePop s).1) = s₁ at *
  generalize ((freeInodePop s).1 : Int) = inum
  obtain ⟨L', owned, live', cell, popped⟩ := popped_parent good.owned live image startIs
  have later := later_sfsLink s₁ inum m filename
  have appended : Strayed s₁ (dnodeAppend s₁ m (diEntC filename (ushort inum))) := .dnodeAppend (by
    rw [number, owned.inodeLoad_eq live', cell]
    omega)
  have room := dnodeAppend_room owned live' (by rw [cell]; exact ok.dir) (by rw [cell]; omega)
    (diEntC filename (ushort inum))
  rw [sfsLink_result]
  generalize dnodeAppend s₁ m (diEntC filename (ushort inum)) = t at *
  rw [cell] at room
  rcases (strayed.trans appended).errno with same | failed
  · -- without an error both the number and the page were there
    exfalso
    have clear : t.errno = 0 := same.trans good.errno
    have was : s₁.errno = 0 := by
      rcases appended.errno with same' | failed
      · exact same'.symm.trans clear
      · rw [clear] at failed
        exact absurd failed.1 (by decide)
    have one := popped was
    have pages := room clear.ge
    rw [linkNeed] at lack
    omega
  · exact ⟨failed.1, later _ failed.2⟩

/-- Where a new entry is asked for, and how the request runs. -/
theorem Good.making (good : Good s L fl) (make : IsMake op) (vfs : Vfs s op) : ∃ cs m c tail s₁ image,
    Located L s op.path cs m c ∧ c.length ≤ 13 ∧ Making L s op m c tail s₁ image := by
  cases make with
  | @create path tail =>
    obtain ⟨cs, c, proper, short⟩ := vfs
    obtain ⟨m, s₁, walks, making⟩ := sfsCreate_making good proper tail
    exact ⟨cs, m, c, tail, s₁, _, ⟨proper.eq, proper.plain, walks, making.live, making.ok⟩, short, making⟩
  | @mkdir path tail =>
    obtain ⟨cs, c, proper, short⟩ := vfs
    obtain ⟨m, s₁, walks, making⟩ := sfsMkdir_making good proper tail
    exact ⟨cs, m, c, tail, s₁, _, ⟨proper.eq, proper.plain, walks, making.live, making.ok⟩, short, making⟩

namespace Located

variable (located : Located L s op.path cs m c) (good : Good s L fl)

include located good

theorem found_pos (leads : child s.stores.pool m c = some k) : 0 < (pathToInum s op.path).1.inum := by
  rw [located.found good, leads]
  exact good.toInum_child_pos located.live leads

theorem found_none (absent : child s.stores.pool m c = none) : ¬ 0 < (pathToInum s op.path).1.inum := by
  rw [located.found good, absent]
  exact show ¬ 0 < toInum none by decide

/-- Where inodes are lacking there is no entry yet. -/
theorem absent_of_lack (make : IsMake op) (lack : spareInodes s < inodeNeed s op) : child s.stores.pool m c = none := by
  by_contra there
  obtain ⟨k, leads⟩ := Option.ne_none_iff_exists'.mp there
  have none : inodeNeed s op = 0 := by
    cases make <;> exact if_pos (located.found_pos good leads)
  omega

end Located

namespace Making

variable (making : Making L s op m c tail s₁ x) (good : Good s L fl) (located : Located L s op.path cs m c)

include making good located

/-- With inodes enough a new entry is made, unless there is one. -/
theorem result (short : c.length ≤ 13) (need : inodeNeed s op ≤ spareInodes s) : (op.run s).1 = makeResult s op := by
  rw [makeResult]
  cases leads : child s.stores.pool m c with
  | some k => rw [if_pos (located.found_pos good leads), making.present k leads]
  | none =>
    obtain ⟨_, _, zero, _⟩ := making.new good located.last short (Or.inr need) leads
    rw [if_neg (located.found_none good leads), if_pos need, zero]

/-- With too few the node cannot be made. -/
theorem fails (make : IsMake op) (lack : spareInodes s < inodeNeed s op) :
    (op.run s).1 = -ENOSPC ∧ Call.inodeDump 0 ∈ (op.run s).2.trace := by
  have absent := located.absent_of_lack good make lack
  have same := making.glance.stores_eq
  rw [making.need absent] at lack
  rw [making.absent absent]
  exact newNode_fails (good.glance making.glance) making.live (by rw [same]; exact making.ok) making.place
    (by rw [same]; exact lack) (Bytes.cstr c tail)

end Making

/-- In every state of a run it is the number of free inodes that decides
whether a new entry can be made. A request that fails for want of inodes
writes to slot 0, which is the superblock, and no other one does. -/
theorem run_makes (run : Run step Permit (sfsInit disk) ops s) (make : IsMake op) (vfs : Vfs s op) :
    (op.run s).1 = makeResult s op ∧ (Call.inodeDump 0 ∈ (step s op).trace ↔ (op.run s).1 = -ENOSPC) := by
  obtain ⟨L, fl, good⟩ := run_good (sfsInit_initial disk).good run
  obtain ⟨cs, m, c, tail, s₁, image, located, short, making⟩ := good.making make vfs
  by_cases need : inodeNeed s op ≤ spareInodes s
  · have fits : Fits s op := by
      cases make <;> trivial
    obtain ⟨L', fl', effect⟩ := good.step_effect ⟨vfs, fits, Or.inr need⟩
    have good' := effect.good good
    have result := making.result good located short need
    refine ⟨result, fun written => ?_, fun failed => ?_⟩
    · have sound : 2 ≤ (0 : Int) ∧ (0 : Int) < 1024 := good'.sound _ written
      omega
    · rw [result, makeResult] at failed
      split at failed <;> exact absurd failed (by decide)
  · have lack := not_le.mp need
    have absent := located.absent_of_lack good make lack
    obtain ⟨failed, written⟩ := making.fails good located make lack
    refine ⟨?_, fun _ => failed, fun _ => written⟩
    rw [failed, makeResult, if_neg (located.found_none good absent), if_neg need]

/-- The request for `/b` after the one for `/a`. -/
theorem run_makes_second : ((Op.create (render [[98]]) Bytes.zero).run firstState).1 =
      makeResult firstState (.create (render [[98]]) Bytes.zero) ∧
    (Call.inodeDump 0 ∈ (step firstState (.create (render [[98]]) Bytes.zero)).trace ↔
      ((Op.create (render [[98]]) Bytes.zero).run firstState).1 = -ENOSPC) := by
  obtain ⟨k, first⟩ := firstState_firstFile
  exact run_makes (run_first.mono fun _ _ => Ready.permit) .create
    ⟨[], [98], first.node.tree.proper_top first.node.owned plain_b, by decide⟩

end Sfs
