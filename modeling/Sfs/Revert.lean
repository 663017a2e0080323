import Sfs.Rollback

namespace Sfs

/-- The lookup of `sfs_create` or `sfs_mkdir`. -/
def makeLookup (s : State) : Op → Resolved × State
  | .mkdir path _ => pathToInum (pathBasename s path) path
  | op => pathToInum s op.path

/-- Size, number of links, and entries or blocks of node `k` are as before. -/
structure Intact (s s' : State) (k : Nat) : Prop where
  rows : size (s'.stores.pool.cell k) = size (s.stores.pool.cell k)
  bytes : fsize (s'.stores.pool.cell k) = fsize (s.stores.pool.cell k)
  links : nlink (s'.stores.pool.cell k) = nlink (s.stores.pool.cell k)
  listing : ∀ o, Filled (endOf (s.stores.pool.cell k)) o → bytesOf s'.stores.pool k o = bytesOf s.stores.pool k o

/-- Superblock, bitmap and nodes are as before. -/
structure Reverted (L : Set Nat) (s s' : State) : Prop where
  sup : s'.stores.sup = s.stores.sup
  free : ∀ q < 1024, s'.stores.pool.free q = s.stores.pool.free q
  nodes : ∀ k ∈ L, Intact s s' k

/-- No index has left its array, and with a negative result all is as before. -/
def MakesClean (L : Set Nat) (s : State) (o : Int × State) : Prop := o.2.ub = false ∧ (o.1 < 0 → Reverted L s o.2)

/-- The path leads somewhere already, or its directory `m` is not full and there are inodes enough. -/
structure Affordable (s : State) (op : Op) (m : Nat) : Prop where
  lookup : (makeLookup s op).2.ub = false
  supply : 0 < (makeLookup s op).1.inum ∨
    size (s.stores.pool.cell m) < 2085 ∧ linkNeed s.stores.pool m ≤ s.stores.pool.freeCount 1024

/-- Directory `k` has been listed, and may have been cut to `rows - 1` entries. -/
structure Pruned (L : Set Nat) (s s' : State) (k rows : Nat) : Prop where
  owned : Owned L s'.stores.pool
  sup : s'.stores.sup = s.stores.sup
  cut : s'.stores.pool = s.stores.pool ∨ size (s'.stores.pool.cell k) = rows - 1

variable {L : Set Nat} {s s' t : State} {fl : List Nat} {k m n i q rows : Nat} {item filename : Bytes} {x : Nat → Bytes}
  {inum r : Int} {op : Op}

theorem setD_ub (s : State) (d : Bytes) : ({ s with d } : State).ub = s.ub := rfl

theorem dnodeListing_ub (s : State) (k : Nat) : (dnodeListing s k).2.ub = s.ub := by
  unfold dnodeListing
  exact setD_ub s _

theorem dnodeListingSet_faulted {newsize : Int} : Faulted s (dnodeListingSet s k newsize) := by
  rw [dnodeListingSet]
  split
  · exact Faulted.trans (.of_eq (errnoPush_ub _ _)) faulted_steps.listingSet
  · exact faulted_steps.listingSet

/-- `dnode_append` puts the entry behind the last one, which may be past the end of `d`. -/
theorem dnodeAppend_overflow (bad : s.ub = true ∨ 2086 ≤ size (inodeLoad s (ushort inum))) :
    (dnodeAppend s inum item).ub = true := by
  have rows := dnodeListing_rows s (ushort inum)
  have same := dnodeListing_ub s (ushort inum)
  simp only [dnodeAppend]
  generalize dnodeListing s (ushort inum) = l at *
  have left : (l.2.fault (decide (l.1 ≥ DENTRY_MAX_SIZE))).ub = true := by
    rcases bad with before | past
    · exact Faulted.fault _ (same.trans before)
    · rw [rows, decide_eq_true (show size (inodeLoad s (ushort inum)) ≥ DENTRY_MAX_SIZE from past)]
      exact Bool.or_true _
  generalize l.2.fault (decide (l.1 ≥ DENTRY_MAX_SIZE)) = r at *
  rw [inodeDump_ub]
  exact dnodeListingSet_faulted left

theorem removeEntry_faulted {r : Nat} : Faulted s (removeEntry s inum rows r) := fun bad => by
  rw [removeEntry, inodeDump_ub]
  exact dnodeListingSet_faulted ((setD_ub s _).trans bad)

theorem dnodeRemoveLoop_succ : dnodeRemoveLoop s inum filename rows i (n + 1) =
    dnodeRemoveLoop (if Bytes.strncmpEq (s.fault (decide (i ≥ DENTRY_MAX_SIZE))).d (diEntSize * i) filename 0 13 then
      removeEntry (s.fault (decide (i ≥ DENTRY_MAX_SIZE))) inum rows i else s.fault (decide (i ≥ DENTRY_MAX_SIZE)))
        inum filename rows (i + 1) n := by
  rw [dnodeRemoveLoop]
  rfl

theorem dnodeRemoveLoop_faulted : Faulted s (dnodeRemoveLoop s inum filename rows i n) := by
  induction n generalizing s i with
  | zero => exact id
  | succ n ih =>
    rw [dnodeRemoveLoop_succ]
    have step : Faulted s (s.fault (decide (i ≥ DENTRY_MAX_SIZE))) := .fault _
    generalize s.fault (decide (i ≥ DENTRY_MAX_SIZE)) = t at *
    split
    · exact step.trans (removeEntry_faulted.trans ih)
    · exact step.trans ih

theorem dnodeRemove_faulted : Faulted s (dnodeRemove s inum filename) := fun bad => by
  rw [dnodeRemove]
  exact dnodeRemoveLoop_faulted ((dnodeListing_ub s (ushort inum)).trans bad)

/-- One entry is cut off the end. -/
theorem removeEntry_cut {r : Nat} (owned : Owned L s.stores.pool) (live : k ∈ L) (dir : isdir (s.stores.pool.cell k) ≠ 0)
    (positive : 1 ≤ rows) (limit : rows ≤ 2086) (within : rows - 1 ≤ size (s.stores.pool.cell k)) :
    ∃ d, Reset L s (removeEntry s k rows r) k (rows - 1) d := by
  have range := owned.node_range live
  have short : ushort k = k := ushort_nat (by omega)
  have cast : (rows : Int) - 1 = ((rows - 1 : Nat) : Int) := by omega
  rw [removeEntry, short, cast]
  generalize s.d.copy (diEntSize * r) (diEnt s.d (rows - 1)) 0 diEntSize = d
  generalize mid : dnodeListingSet { s with d } k (rows - 1 : Nat) = s₁
  obtain ⟨reset, _⟩ := dnodeSet_spec (v := fun a => ushort ((a : Int) - 1)) owned live dir (by omega) (fun _ => ushort_lt _)
    mid rfl (by rw [endOf_dir dir]; exact .of_le (Nat.mul_le_mul_left _ within))
  exact ⟨d, reset⟩

/-- However many entries have the name, the directory is cut by one. -/
theorem dnodeRemoveLoop_pruned (owned : Owned L s.stores.pool) (live : k ∈ L) (dir : isdir (s.stores.pool.cell k) ≠ 0)
    (positive : 1 ≤ rows) (limit : rows ≤ 2086) (within : rows - 1 ≤ size (s.stores.pool.cell k)) :
    Pruned L s (dnodeRemoveLoop s k filename rows i n) k rows := by
  induction n generalizing s i with
  | zero => exact ⟨owned, rfl, Or.inl rfl⟩
  | succ n ih =>
    have same : (s.fault (decide (i ≥ DENTRY_MAX_SIZE))).stores = s.stores := stores_fault _
    rw [dnodeRemoveLoop_succ]
    generalize s.fault (decide (i ≥ DENTRY_MAX_SIZE)) = t at *
    rw [← same] at owned dir within
    split
    · obtain ⟨d, reset⟩ := removeEntry_cut (r := i) owned live dir positive limit within
      generalize removeEntry t k rows i = u at *
      have cutTo : size (u.stores.pool.cell k) = rows - 1 := reset.resized.size
      obtain ⟨owned', sup, cut⟩ := ih reset.owned (by rw [reset.resized.isdir_eq]; exact dir) cutTo.ge
      refine ⟨owned', ?_, Or.inr ?_⟩
      · rw [sup, reset.rest, Stores.setPool_sup, same]
      · rcases cut with kept | cut
        · rw [kept, cutTo]
        · exact cut
    · obtain ⟨owned', sup, cut⟩ := ih owned dir within
      rw [same] at sup cut
      exact ⟨owned', sup, cut⟩

theorem dnodeRemove_pruned (owned : Owned L s.stores.pool) (live : k ∈ L) (dir : isdir (s.stores.pool.cell k) ≠ 0) :
    Pruned L s (dnodeRemove s k filename) k (size (s.stores.pool.cell k)) := by
  have range := owned.node_range live
  have fits := owned.fits k live
  rw [endOf_dir dir, diEntSize] at fits
  have short : ushort k = k := ushort_nat (by omega)
  obtain ⟨d, listed, _⟩ := owned.dnodeListing_spec live dir
  have start : ({ s with d } : State).stores = s.stores := stores_congr rfl
  rw [dnodeRemove, short, listed]
  dsimp only
  generalize ({ s with d } : State) = t at *
  rcases Nat.eq_zero_or_pos (size (s.stores.pool.cell k)) with none | some
  · rw [none, dnodeRemoveLoop]
    exact ⟨by rwa [start], by rw [start], Or.inl (by rw [start])⟩
  · have pruned : Pruned L t (dnodeRemoveLoop t k filename (size (s.stores.pool.cell k)) 0 (size (s.stores.pool.cell k))) k
        (size (s.stores.pool.cell k)) :=
      dnodeRemoveLoop_pruned (by rwa [start]) live (by rwa [start]) some (by omega) (by rw [start]; exact Nat.sub_le _ _)
    obtain ⟨owned', sup, cut⟩ := pruned
    rw [start] at sup cut
    exact ⟨owned', sup, cut⟩

/-- An entry that goes into a page in use, or is one too many. -/
structure Enlarged (L : Set Nat) (s s' : State) (k : Nat) : Prop where
  owned : Owned L s'.stores.pool
  sup : s'.stores.sup = s.stores.sup
  isdir : isdir (s'.stores.pool.cell k) = isdir (s.stores.pool.cell k)
  failed : s.errno < 0 → s'.errno < 0
  full : size (s.stores.pool.cell k) = 2085 → s'.errno < 0 ∧ size (s'.stores.pool.cell k) = 2085 ∧
    nlink (s'.stores.pool.cell k) = ushort ((nlink (s.stores.pool.cell k) : Int) + 1)

/-- A listing that is too long is cut, with an error. -/
theorem dnodeListingSet_full {d : Bytes} {v : Int} (full : DENTRY_MAX_SIZE ≤ v) :
    dnodeListingSet { s with d } k v = dnodeListingSet { errnoPush s (-EFBIG) with d } k (2085 : Nat) := by
  have last : (DENTRY_MAX_SIZE : Int) - 1 = (2085 : Nat) := rfl
  have fits : ¬ ((2085 : Nat) : Int) ≥ DENTRY_MAX_SIZE := by decide
  rw [dnodeListingSet, dnodeListingSet, if_pos full, if_neg fits, last]
  rfl

theorem dnodeAppend_enlarged (owned : Owned L s.stores.pool) (live : k ∈ L) (dir : isdir (s.stores.pool.cell k) ≠ 0)
    (limit : size (s.stores.pool.cell k) ≤ 2085) (inline : linkNeed s.stores.pool k = 1) (item : Bytes) :
    Enlarged L s (dnodeAppend s k item) k := by
  have ends := endOf_dir dir
  rcases limit.lt_or_eq with few | full
  · have need : pageCount (diEntSize * (size (s.stores.pool.cell k) + 1)) (endOf (s.stores.pool.cell k)) = 0 := by
      rw [linkNeed] at inline
      rw [ends]
      omega
    generalize addedIs : dnodeAppend s k item = s'
    obtain ⟨⟨d, reset⟩, _⟩ := dnodeAppend_spec owned live dir (by omega) addedIs (Or.inr (by rw [need]; exact Nat.zero_le _))
    refine ⟨reset.owned, by rw [reset.rest, Stores.setPool_sup], reset.resized.isdir_eq, fun failed => ?_, fun full => ?_⟩
    · rwa [reset.errno]
    · omega
  · have range := owned.node_range live
    have short : ushort k = k := ushort_nat (by omega)
    obtain ⟨d, listed, _⟩ := owned.dnodeListing_spec live dir
    have inside : decide (size (s.stores.pool.cell k) ≥ DENTRY_MAX_SIZE) = false := by
      simp only [DENTRY_MAX_SIZE]
      simp
      omega
    have past : (DENTRY_MAX_SIZE : Int) ≤ (size (s.stores.pool.cell k) : Int) + 1 := by
      simp only [DENTRY_MAX_SIZE]
      omega
    simp only [dnodeAppend, short, listed, inside, fault_false]
    rw [dnodeListingSet_full past]
    have same := stores_errnoPush s (-EFBIG)
    have pushed := errnoPush_failed s
    generalize errnoPush s (-EFBIG) = t at *
    rw [← same] at owned dir ends
    generalize mid : dnodeListingSet { t with d := d.copy (diEntSize * size (s.stores.pool.cell k)) item 0 diEntSize } k
      (2085 : Nat) = s₁
    obtain ⟨reset, links, _⟩ := dnodeSet_spec (v := fun a => ushort ((a : Int) + 1)) owned live dir (by decide)
      (fun _ => ushort_lt _) mid rfl (by rw [ends, same, full]; exact .of_le le_rfl)
    rw [same] at links
    refine ⟨reset.owned, ?_, ?_, fun _ => ?_, fun _ => ⟨?_, reset.resized.size, links⟩⟩
    · rw [reset.rest, Stores.setPool_sup, same]
    · rw [reset.resized.isdir_eq, same]
    · rwa [reset.errno]
    · rwa [reset.errno]

theorem sfsLink_faulted (bad : s.ub = true ∨ 2086 ≤ size (inodeLoad s (ushort m))) :
    (sfsLink s inum m filename).2.ub = true := by
  have left : (dnodeAppend s m (diEntC filename (ushort inum))).ub = true := dnodeAppend_overflow bad
  simp only [sfsLink]
  generalize dnodeAppend s m (diEntC filename (ushort inum)) = t at *
  split
  · exact faulted_steps.push _ _ (dnodeRemove_faulted ((errnoPop_ub t).trans left))
  · exact (errnoPop_ub t).trans left

theorem errnoPop_fst (s : State) : (errnoPop s).1 = s.errno := rfl

/-- After an error the entry is taken back, and the number given back. -/
theorem sfsLink_failed (failed : (dnodeAppend s m (diEntC filename (ushort inum))).errno < 0) :
    sfsLink s inum m filename = ((dnodeAppend s m (diEntC filename (ushort inum))).errno, freeInodePush
      (dnodeRemove (errnoPop (dnodeAppend s m (diEntC filename (ushort inum)))).2 m filename) (ushort inum)) := by
  simp only [sfsLink]
  generalize dnodeAppend s m (diEntC filename (ushort inum)) = t at *
  generalize ushort inum = q
  rw [errnoPop_fst, if_pos failed]

theorem sfsLink_done (run : dnodeAppend s m (diEntC filename (ushort inum)) = t) (done : t.errno = 0) :
    sfsLink s inum m filename = (0, (errnoPop t).2) := by
  rw [sfsLink, run]
  dsimp only
  have clear : (errnoPop t).1 = 0 := (errnoPop_fst t).trans done
  rw [clear, if_neg (lt_irrefl _), ← clear]

theorem freeInodePush_cells (small : q < 1024) : (freeInodePush s q).stores.sup = s.stores.sup ∧
    (freeInodePush s q).stores.pool.cell = s.stores.pool.cell := by
  by_cases low : q < 2
  · have same : freeInodePush s q = s := if_pos low
    rw [same]
    exact ⟨rfl, rfl⟩
  · rw [stores_freeInodePush (by omega) (by omega), Stores.setPool_sup, Stores.setPool_pool, Pool.give_cell]
    exact ⟨rfl, rfl⟩

/-- The superblock as the link found it, and a full directory with an entry less or a link more. -/
theorem sfsLink_back (owned : Owned L s.stores.pool) (live : m ∈ L) (dir : isdir (s.stores.pool.cell m) ≠ 0)
    (limit : size (s.stores.pool.cell m) ≤ 2085) (inline : linkNeed s.stores.pool m = 1) (number : ushort inum < 1024)
    (bad : s.errno < 0 ∨ size (s.stores.pool.cell m) = 2085) (run : sfsLink s inum m filename = (r, s')) :
    r < 0 ∧ s'.stores.sup = s.stores.sup ∧ (size (s.stores.pool.cell m) = 2085 →
      size (s'.stores.pool.cell m) ≠ 2085 ∨ nlink (s'.stores.pool.cell m) ≠ nlink (s.stores.pool.cell m)) := by
  obtain ⟨owned', sup, isdir', onward, full⟩ := dnodeAppend_enlarged owned live dir limit inline
    (diEntC filename (ushort inum))
  have failed : (dnodeAppend s m (diEntC filename (ushort inum))).errno < 0 :=
    bad.elim onward fun full' => (full full').1
  have back := sfsLink_failed failed
  rw [run] at back
  generalize dnodeAppend s m (diEntC filename (ushort inum)) = t at *
  generalize ushort inum = q at *
  have cleared := stores_errnoPop t
  generalize (errnoPop t).2 = u at *
  rw [← cleared] at owned' sup isdir' full
  have pruned : Pruned L u (dnodeRemove u m filename) m (size (u.stores.pool.cell m)) :=
    dnodeRemove_pruned owned' live (by rw [isdir']; exact dir)
  generalize dnodeRemove u m filename = v at *
  obtain ⟨_, sup', cut⟩ := pruned
  obtain ⟨sup'', cells⟩ := freeInodePush_cells (s := v) number
  rw [Prod.mk.injEq] at back
  obtain ⟨rfl, rfl⟩ := back
  refine ⟨failed, sup''.trans (sup'.trans sup), fun was => ?_⟩
  obtain ⟨_, rows, links⟩ := full was
  have small : nlink (s.stores.pool.cell m) < 65536 := Bytes.get16_lt ..
  rw [cells]
  rcases cut with kept | cut
  · refine Or.inr ?_
    rw [kept, links]
    simp only [ushort]
    omega
  · refine Or.inl ?_
    omega

/-- With no inode for the node, or in a full directory, the request fails, and what it leaves is not what it found. -/
theorem newNode_lacks (owned : Owned L s.stores.pool) (list : FreeList s.stores fl) (live : m ∈ L)
    (dir : isdir (s.stores.pool.cell m) ≠ 0) (place : ∀ q < 1024, ino (x q) = q ∧ endOf (x q) ≤ 96)
    (parent : ∀ q, pno (x q) = m) (limit : size (s.stores.pool.cell m) ≤ 2085) (inline : linkNeed s.stores.pool m = 1)
    (lack : s.stores.pool.freeCount 1024 = 0 ∨ size (s.stores.pool.cell m) = 2085)
    (run : newNode s x m filename = (r, s')) : r < 0 ∧ ¬ Reverted L s s' := by
  have range := owned.node_range live
  have upper : (freeInodePop s).1 < 1024 := by
    rcases freeInodePop_cases s with ⟨q, disk, popped, upper, _⟩ | ⟨popped, _⟩
    · rwa [popped]
    · rw [popped]
      exact Nat.zero_lt_succ _
  have number : ushort ((freeInodePop s).1 : Int) < 1024 := by rwa [ushort_nat (by omega)]
  have empty : s.stores.pool.freeCount 1024 = 0 →
      (inodeDump (freeInodePop s).2 (freeInodePop s).1 (x (freeInodePop s).1)).errno < 0 ∧
      (inodeDump (freeInodePop s).2 (freeInodePop s).1 (x (freeInodePop s).1)).stores.sup = (x 0).take 128 := fun none => by
    obtain ⟨t, popped, _, errno⟩ := freeInodePop_none none
    rw [popped]
    refine ⟨?_, ?_⟩
    · rw [inodeDump_errno, errno]
      decide
    · rw [stores_inodeDump_zero, Stores.setSup_sup]
  rw [newNode] at run
  generalize startIs : inodeDump (freeInodePop s).2 (freeInodePop s).1 (x (freeInodePop s).1) = s₁ at *
  obtain ⟨L', owned₁, live₁, cell, _⟩ := popped_parent owned live place startIs
  rw [← cell] at dir limit lack
  rw [linkNeed, ← cell, ← linkNeed] at inline
  obtain ⟨failed, sup, full⟩ := sfsLink_back owned₁ live₁ dir limit inline number
    (lack.imp_left fun none => (empty none).1) run
  refine ⟨failed, fun reverted => ?_⟩
  rcases lack with none | past
  · -- the image of inode 0 is still there
    have image : s'.stores.sup = (x 0).take 128 := sup.trans (empty none).2
    have head := head_of_inode (place 0 (by decide)).1 (parent 0) range.2 image
    have cases := list.head_cases
    rw [reverted.sup] at head
    rw [MAX_BLOCK_NUM] at cases
    omega
  · obtain ⟨rows, _, links, _⟩ := reverted.nodes m live
    rw [← cell] at rows links
    rcases full past with shorter | more
    · exact shorter (rows.trans past)
    · exact more links

/-- With inodes enough and room in the directory the request does not fail. -/
theorem newNode_affords (owned : Owned L s.stores.pool) (live : m ∈ L) (dir : isdir (s.stores.pool.cell m) ≠ 0)
    (place : ∀ q < 1024, ino (x q) = q ∧ endOf (x q) ≤ 96) (few : size (s.stores.pool.cell m) < 2085)
    (enough : linkNeed s.stores.pool m ≤ s.stores.pool.freeCount 1024) (clear : s.errno = 0)
    (run : newNode s x m filename = (r, s')) : r = 0 ∧ s'.ub = s.ub := by
  have popped : (freeInodePop s).2.errno = s.errno := by
    rcases freeInodePop_cases s with ⟨q, disk, popped, _⟩ | ⟨_, none⟩
    · rw [popped]
    · rw [linkNeed, Pool.freeCount_eq_zero.mpr none] at enough
      omega
  have errno := inodeDump_errno (freeInodePop s).2 (freeInodePop s).1 (x (freeInodePop s).1)
  have ub := inodeDump_ub (freeInodePop s).2 (freeInodePop s).1 (x (freeInodePop s).1)
  rw [popped, clear] at errno
  rw [freeInodePop_ub] at ub
  rw [newNode] at run
  generalize startIs : inodeDump (freeInodePop s).2 (freeInodePop s).1 (x (freeInodePop s).1) = s₁ at *
  obtain ⟨L', owned₁, live₁, cell, spare⟩ := popped_parent owned live place startIs
  have left := spare errno
  rw [linkNeed, ← cell] at enough
  rw [← cell] at dir few
  generalize ((freeInodePop s).1 : Int) = inum at *
  generalize addedIs : dnodeAppend s₁ m (diEntC filename (ushort inum)) = t
  obtain ⟨⟨d, reset⟩, _, _, ub'⟩ := dnodeAppend_spec owned₁ live₁ dir (by omega) addedIs
    (Or.inr (by rw [endOf_dir dir]; omega))
  have done : t.errno = 0 := reset.errno.trans errno
  rw [sfsLink_done addedIs done, Prod.mk.injEq] at run
  obtain ⟨result, last⟩ := run
  refine ⟨result.symm, ?_⟩
  rw [← last, errnoPop_ub, ub', ub]

/-- What the two requests do: nothing but the lookup where it finds something, and else a new node. -/
theorem make_runs (make : IsMake op) (found : (makeLookup s op).1.parent = m) (small : m < 65536) :
    (0 < (makeLookup s op).1.inum → op.run s = (-EEXIST, (makeLookup s op).2)) ∧
    (¬ 0 < (makeLookup s op).1.inum → ∃ (x : Nat → Bytes) (filename : Bytes),
      (∀ q < 1024, ino (x q) = q ∧ endOf (x q) ≤ 96) ∧ (∀ q, pno (x q) = m) ∧
        op.run s = newNode (makeLookup s op).2 x m filename) := by
  have parent : ushort m = m := ushort_nat small
  cases make with
  | @create path tail =>
    refine ⟨sfsCreate_present tail, fun absent => ⟨(fnodeImage · m), Bytes.cstr (basename path) tail,
      fun q => fnodeImage_place, fun q => pno_fnodeImage small, ?_⟩⟩
    simp only [makeLookup, Op.path] at found absent ⊢
    simp only [Op.run, sfsCreate, found, parent, fnodeInit_eq]
    exact if_neg absent
  | @mkdir path tail =>
    refine ⟨sfsMkdir_present tail, fun absent => ⟨(dnodeImage · m), Bytes.cstr (basename path) tail,
      fun q => dnodeImage_place, fun q => pno_dnodeImage small, ?_⟩⟩
    simp only [makeLookup] at found absent ⊢
    simp only [Op.run, sfsMkdir, found, parent, dnodeInit_eq]
    exact if_neg absent

theorem makeLookup_glance (make : IsMake op) : Glance s (makeLookup s op).2 := by
  cases make with
  | @create path tail => exact pathToInum_glance s path
  | @mkdir path tail => exact (Glance.of_fault _).trans (pathToInum_glance _ path)

theorem Reverted.of_stores (same : s'.stores = s.stores) : Reverted L s s' :=
  ⟨by rw [same], fun _ _ => by rw [same], fun _ _ => ⟨by rw [same], by rw [same], by rw [same], fun _ _ => by rw [same]⟩⟩

theorem Reverted.start_from (reverted : Reverted L t s') (same : t.stores = s.stores) : Reverted L s s' := by
  obtain ⟨sup, free, nodes⟩ := reverted
  rw [same] at sup free
  refine ⟨sup, free, fun k live => ?_⟩
  obtain ⟨rows, bytes, links, listing⟩ := nodes k live
  rw [same] at rows bytes links listing
  exact ⟨rows, bytes, links, listing⟩

/-- An index that is out of range on the way stays on record. -/
theorem newNode_overflow (owned : Owned L s.stores.pool) (live : m ∈ L) (place : ∀ q < 1024, ino (x q) = q ∧ endOf (x q) ≤ 96)
    (bad : s.ub = true ∨ 2086 ≤ size (s.stores.pool.cell m)) : (newNode s x m filename).2.ub = true := by
  have range := owned.node_range live
  have ub := inodeDump_ub (freeInodePop s).2 (freeInodePop s).1 (x (freeInodePop s).1)
  rw [freeInodePop_ub] at ub
  rw [newNode]
  generalize startIs : inodeDump (freeInodePop s).2 (freeInodePop s).1 (x (freeInodePop s).1) = s₁ at *
  obtain ⟨L', owned₁, live₁, cell, _⟩ := popped_parent owned live place startIs
  refine sfsLink_faulted ?_
  rwa [ub, ushort_nat (by omega), owned₁.inodeLoad_eq live₁, cell]

/-- A request for a new entry that fails changes nothing where there is such an
entry already. With inodes enough and a place in the directory it does not
fail. Otherwise, if the directory needs no page for the entry, something changes. -/
theorem make_revertsClean (make : IsMake op) (owned : Owned L s.stores.pool) (list : FreeList s.stores fl) (live : m ∈ L)
    (dir : isdir (s.stores.pool.cell m) ≠ 0) (found : (makeLookup s op).1.parent = m) (clear : s.errno = 0) :
    (Affordable s op m → MakesClean L s (op.run s)) ∧
      (linkNeed s.stores.pool m = 1 → MakesClean L s (op.run s) → Affordable s op m) := by
  have range := owned.node_range live
  have glance := makeLookup_glance (s := s) make
  obtain ⟨present, absent⟩ := make_runs make found (by omega)
  have same := glance.stores_eq
  by_cases there : 0 < (makeLookup s op).1.inum
  · rw [present there]
    exact ⟨fun affordable => ⟨affordable.lookup, fun _ => .of_stores same⟩, fun _ clean => ⟨clean.1, Or.inl there⟩⟩
  · obtain ⟨x, filename, place, parent, runs⟩ := absent there
    rw [runs]
    generalize afterIs : (makeLookup s op).2 = t at *
    have ownedT : Owned L t.stores.pool := by rwa [same]
    have dirT : isdir (t.stores.pool.cell m) ≠ 0 := by rwa [same]
    generalize outcome : newNode t x m filename = o
    obtain ⟨r, s'⟩ := o
    constructor
    · rintro ⟨lookup, supply⟩
      obtain ⟨few, enough⟩ := supply.resolve_left there
      obtain ⟨done, ub⟩ := newNode_affords ownedT live dirT place (by rwa [same]) (by rwa [same]) (glance.errno_eq.trans clear)
        outcome
      refine ⟨ub.trans (afterIs ▸ lookup), fun failed => ?_⟩
      rw [done] at failed
      exact absurd failed (lt_irrefl (0 : Int))
    · rintro inline ⟨defined, reverts⟩
      have inside : ¬ (t.ub = true ∨ 2086 ≤ size (t.stores.pool.cell m)) := fun bad => by
        have left : (newNode t x m filename).2.ub = true := newNode_overflow ownedT live place bad
        rw [outcome, defined] at left
        exact Bool.false_ne_true left
      obtain ⟨lookup, limit⟩ := not_or.mp inside
      have supplied : ¬ (t.stores.pool.freeCount 1024 = 0 ∨ size (t.stores.pool.cell m) = 2085) := fun lack => by
        obtain ⟨failed, changed⟩ := newNode_lacks ownedT (by rwa [same]) live dirT place parent (by omega) (by rwa [same])
          lack outcome
        exact changed ((reverts failed).start_from same.symm)
      obtain ⟨some, notFull⟩ := not_or.mp supplied
      rw [same] at limit some notFull
      exact ⟨afterIs ▸ Bool.eq_false_of_not_eq_true lookup, Or.inr ⟨by omega, by omega⟩⟩

/-- The file `/a` is asked for a second time. -/
theorem make_revertsClean_first : ∃ (s : State) (k : Nat), Glance firstState s ∧
    ((Op.create (render [[97]]) Bytes.zero).run s).1 = -EEXIST ∧
    MakesClean {k, 2} s ((Op.create (render [[97]]) Bytes.zero).run s) := by
  obtain ⟨s, k, glance, first, lookup⟩ := firstState_clear
  have good := first.good
  have proper := good.tree.proper_top good.owned plain_a
  have located : Located (insert k {2}) s (render [[97]]) [] 2 [97] :=
    ⟨rfl, proper.plain, rfl, good.tree.root, good.tree.top⟩
  have there : 0 < (pathToInum s (render [[97]])).1.inum := by
    rw [located.found good, first.leads]
    exact good.toInum_child_pos good.tree.root first.leads
  refine ⟨s, k, glance, ?_, (make_revertsClean .create good.owned good.list good.tree.root good.tree.top.dir ?_ good.errno).1
    ⟨lookup, Or.inl there⟩⟩
  · exact congrArg Prod.fst (sfsCreate_present Bytes.zero there)
  · exact congrArg Resolved.parent (located.found good)

/-- The file `/b` is asked for where 1021 directories in one another have taken
every inode: the request fails, and the superblock is not what it was. -/
theorem create_spoils : ∃ s L, Run step Permit (sfsInit Bytes.zero) (nestings 1021) s ∧
    Owned L s.stores.pool ∧ FreeList s.stores (List.range' 1025 31743) ∧ s.errno = 0 ∧ 2 ∈ L ∧
    isdir (s.stores.pool.cell 2) ≠ 0 ∧ (pathToInum s (render [[98]])).1.parent = 2 ∧
    (sfsCreate s (render [[98]]) Bytes.zero).1 < 0 ∧ ¬ Reverted L s (sfsCreate s (render [[98]]) Bytes.zero).2 := by
  obtain ⟨s, L, m, run, nested⟩ := nested_runs le_rfl
  have good := nested.good
  have spare := nested.spare
  have proper := good.tree.proper_top good.owned plain_b
  have located : Located L s (render [[98]]) [] 2 [98] := ⟨rfl, proper.plain, rfl, good.tree.root, good.tree.top⟩
  have found : (pathToInum s (render [[98]])).1.parent = (2 : Nat) := by rw [located.found good]
  have absent : ¬ 0 < (pathToInum s (render [[98]])).1.inum := by
    rw [located.found good, nested.absent, toInum_none]
    decide
  have make : IsMake (.create (render [[98]]) Bytes.zero) := .create
  have few := nested.few
  have none : s.stores.pool.freeCount 1024 = 0 := by
    rw [spareInodes] at spare
    omega
  obtain ⟨x, filename, place, parent, runs⟩ := (make_runs make found (by decide)).2 absent
  have glance := pathToInum_glance s (render [[98]])
  have same := glance.stores_eq
  generalize outcome : newNode (pathToInum s (render [[98]])).2 x 2 filename = o at runs
  obtain ⟨r, s'⟩ := o
  have result : sfsCreate s (render [[98]]) Bytes.zero = (r, s') := runs.trans outcome
  obtain ⟨failed, changed⟩ := newNode_lacks (by rw [same]; exact good.owned) (by rw [same]; exact good.list) good.tree.root
    (by rw [same]; exact good.tree.top.dir) place parent (by rw [same]; omega) (by rw [same]; exact linkNeed_few few)
    (Or.inl (by rw [same]; exact none)) outcome
  refine ⟨s, L, run, good.owned, good.list, good.errno, good.tree.root, good.tree.top.dir, found, ?_⟩
  rw [result]
  exact ⟨failed, fun reverted => changed (reverted.start_from same.symm)⟩

end Sfs
