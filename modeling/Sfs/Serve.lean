import Sfs.Resolve

namespace Sfs

/-- The result and the state after `sfs_create` or `sfs_mkdir` for entry `c` of directory `m`. -/
inductive LinkOutcome (L : Set Nat) (s : State) (m : Nat) (c : List UInt8) (isDir : Prop) : Int → State → Prop
  | exists {k s'} : child s.stores.pool m c = some k → Glance s s' → LinkOutcome L s m c isDir (-EEXIST) s'
  | made {q x s'} : child s.stores.pool m c = none → Made L s s' q m x c → Fresh x q → (isdir x ≠ 0 ↔ isDir) →
    s'.errno = 0 → LinkOutcome L s m c isDir 0 s'

/-- How a request for entry `c` of directory `m` runs: an entry that is there is
reported, and otherwise a node with the inode `image` is made. -/
structure Making (L : Set Nat) (s : State) (op : Op) (m : Nat) (c : List UInt8) (tail : Bytes) (s₁ : State)
    (image : Nat → Bytes) : Prop where
  live : m ∈ L
  ok : DirOk s.stores.pool m
  glance : Glance s s₁
  place : ∀ q < 1024, ino (image q) = q ∧ endOf (image q) ≤ 96
  parent : ∀ q, pno (image q) = m
  present : ∀ k, child s.stores.pool m c = some k → op.run s = (-EEXIST, s₁)
  need : child s.stores.pool m c = none → inodeNeed s op = linkNeed s.stores.pool m
  absent : child s.stores.pool m c = none → op.run s = newNode s₁ image m (Bytes.cstr c tail)

/-- The pools on the way of an unlink: node `k` is cleared and released, and
its entry in directory `m` is dropped. -/
def Cleared (L : Set Nat) (p p' : Pool Bytes) (k m : Nat) : Prop :=
  ∃ p₁ f buf, Repaged L p p₁ k 0 f ∧ Repaged (L \ {k}) (p₁.give k) p' m (size (p.cell m) - 1) buf

/-- The result and the state after `sfs_unlink` of entry `c` of directory `m`. -/
inductive UnlinkOutcome (L : Set Nat) (s : State) (m : Nat) (c : List UInt8) (fl : List Nat) : Int → State → Prop
  | absent {s'} : child s.stores.pool m c = none → Glance s s' → UnlinkOutcome L s m c fl (-ENOENT) s'
  | removed {k r s'} : child s.stores.pool m c = some k → isdir (s.stores.pool.cell k) = 0 →
    entName s.stores.pool m r = c → r < size (s.stores.pool.cell m) →
    Removal L (L \ {k}) s s' k m r ((blocksOf s.stores.pool k).reverse ++ fl) →
    Cleared L s.stores.pool s'.stores.pool k m → UnlinkOutcome L s m c fl 0 s'

/-- The result and the state after `sfs_rmdir` of entry `c` of directory `m`. -/
inductive RmdirOutcome (L : Set Nat) (s : State) (m : Nat) (c : List UInt8) (fl : List Nat) : Int → State → Prop
  | absent {s'} : child s.stores.pool m c = none → Glance s s' → RmdirOutcome L s m c fl (-ENOENT) s'
  | removed {k r s'} : child s.stores.pool m c = some k → isdir (s.stores.pool.cell k) ≠ 0 →
    entName s.stores.pool m r = c → r < size (s.stores.pool.cell m) → Removal L L s s' k m r fl →
    RmdirOutcome L s m c fl 0 s'

variable {L : Set Nat} {s s₁ s' : State} {fl : List Nat} {k m q : Nat} {x : Bytes} {c : List UInt8} {cs : Path}
  {path : CPath} {tail : Bytes} {r : Int} {image : Nat → Bytes} {op : Op}

theorem fnodeImage_fresh : Fresh ((fnodeImage q m).take 128) q ∧ isdir ((fnodeImage q m).take 128) = 0 := by
  have file : isdir ((fnodeImage q m).take 128) = 0 := (Bytes.take_apply_of_lt (by omega)).trans isdir_fnodeImage
  exact ⟨Or.inl ⟨file, (Bytes.get16_take (by omega)).trans size_fnodeImage⟩, file⟩

theorem fnodeImage_place (upper : q < 1024) : ino (fnodeImage q m) = q ∧ endOf (fnodeImage q m) ≤ 96 := by
  refine ⟨ino_fnodeImage (by omega), ?_⟩
  rw [endOf_file isdir_fnodeImage, size_fnodeImage]
  omega

theorem dnodeImage_fresh : Fresh ((dnodeImage q m).take 128) q ∧ isdir ((dnodeImage q m).take 128) ≠ 0 := by
  have dir : isdir ((dnodeImage q m).take 128) = 1 := (Bytes.take_apply_of_lt (by omega)).trans isdir_dnodeImage
  exact ⟨Or.inr ⟨m, rfl⟩, by rw [dir]; decide⟩

theorem dnodeImage_place (upper : q < 1024) : ino (dnodeImage q m) = q ∧ endOf (dnodeImage q m) ≤ 96 := by
  have dir : isdir (dnodeImage q m) ≠ 0 := by
    rw [isdir_dnodeImage]
    decide
  refine ⟨ino_dnodeImage (by omega), ?_⟩
  rw [endOf_dir dir, size_dnodeImage, diEntSize]
  omega

theorem toInum_some_pos : toInum (some k) > 0 ↔ 0 < k := by simp [toInum]

theorem toInum_none : toInum none = -1 := rfl

/-- The names of a path hold no NUL. -/
theorem Proper.last (proper : Proper s path (cs ++ [c])) : Plain c := proper.plain c (by simp)

/-- A node that an entry leads to is not the superblock. -/
theorem Good.child_pos (good : Good s L fl) (live : m ∈ L) (step : child s.stores.pool m c = some k) :
    k ∈ L ∧ 2 ≤ k ∧ k < 1024 ∧ m < 1024 := by
  obtain ⟨live', _⟩ := good.tree.closed m live c k step
  have range := good.owned.node_range live'
  exact ⟨live', range.1, range.2, (good.owned.node_range live).2⟩

theorem Good.toInum_child_pos (good : Good s L fl) (live : m ∈ L) (step : child s.stores.pool m c = some k) :
    0 < toInum (some k) := by
  obtain ⟨_, lower, _⟩ := good.child_pos live step
  exact toInum_some_pos.mpr (by omega)

theorem freeInodePop_fst : (freeInodePop s).1 =
    ((popByte (blockRead s INODE_BLK_SIZE) 0 (INODE_BLK_SIZE / 8)).map Prod.fst).getD 0 := by
  unfold freeInodePop
  split
  next popped => rw [popped, Option.map_some, Option.getD_some]
  next popped => rw [popped, Option.map_none, Option.getD_none]

/-- A lookup does not change which inode is taken next. -/
theorem Glance.popped (glance : Glance s s₁) : (freeInodePop s₁).1 = (freeInodePop s).1 := by
  have disk : s₁.disk = s.disk := by
    unfold Glance at glance
    rw [glance]
  rw [freeInodePop_fst, freeInodePop_fst, blockRead, blockRead, disk]

/-- A node is made after the lookups, which have only filled buffers. -/
theorem newNode_made {x : Nat → Bytes} (good : Good s L fl) (glance : Glance s s₁) (live : m ∈ L)
    (ok : DirOk s.stores.pool m) (plain : Plain c) (short : c.length ≤ 13)
    (place : ∀ q < 1024, ino (x q) = q ∧ endOf (x q) ≤ 96) (run : newNode s₁ x m (Bytes.cstr c tail) = (r, s'))
    (room : Room s.stores.pool (linkNeed s.stores.pool m) s') :
    ∃ q, (freeInodePop s).1 = q ∧ r = 0 ∧ s'.errno = 0 ∧ Made L s s' q m ((x q).take 128) c ∧
      nlink (s'.stores.pool.cell m) = ushort ((nlink (s.stores.pool.cell m) : Int) + 1) ∧ s'.ub = s₁.ub := by
  have same := glance.stores_eq
  have good₁ := good.glance glance
  have ok₁ : DirOk s₁.stores.pool m := by rwa [same]
  have rows := good₁.tree.rows_le good₁.owned live ok₁
  obtain ⟨q, popped, zero, errno, made, links, ub⟩ := newNode_spec good₁ live ok₁ plain.noNul (by omega) place run
    (by rwa [same])
  rw [List.take_of_length_le short] at made
  exact ⟨q, glance.popped.symm.trans popped, zero, errno, made.of_glance glance, by rw [links, same], ub⟩

theorem sfsCreate_present (tail : Bytes) (found : (pathToInum s path).1.inum > 0) :
    sfsCreate s path tail = (-EEXIST, (pathToInum s path).2) := if_pos found

theorem sfsMkdir_present (tail : Bytes) (found : (pathToInum (pathBasename s path) path).1.inum > 0) :
    sfsMkdir s path tail = (-EEXIST, (pathToInum (pathBasename s path) path).2) := if_pos found

/-- What `sfs_create` does where the path leads to nothing. -/
theorem sfsCreate_absent (tail : Bytes) (found : pathToInum s path = (⟨toInum none, m⟩, s₁)) (name : basename path = c)
    (small : m < 65536) : sfsCreate s path tail = newNode s₁ (fnodeImage · m) m (Bytes.cstr c tail) := by
  have parent : ushort m = m := ushort_nat small
  simp only [sfsCreate, found, name, parent, fnodeInit_eq]
  exact if_neg (by rw [toInum_none]; omega)

theorem sfsMkdir_absent (tail : Bytes) (found : pathToInum (pathBasename s path) path = (⟨toInum none, m⟩, s₁))
    (name : basename path = c) (small : m < 65536) :
    sfsMkdir s path tail = newNode s₁ (dnodeImage · m) m (Bytes.cstr c tail) := by
  have parent : ushort m = m := ushort_nat small
  simp only [sfsMkdir, found, name, parent, dnodeInit_eq]
  exact if_neg (by rw [toInum_none]; omega)

namespace Making

variable {isDir : Prop} (making : Making L s op m c tail s₁ image) (good : Good s L fl) (plain : Plain c)
  (short : c.length ≤ 13) (room : Room s.stores.pool (inodeNeed s op) (op.run s).2)

include making good plain short room

/-- The node that is made where there is no entry. -/
theorem new (absent : child s.stores.pool m c = none) : ∃ q, (freeInodePop s).1 = q ∧ (op.run s).1 = 0 ∧
    (op.run s).2.errno = 0 ∧ Made L s (op.run s).2 q m ((image q).take 128) c ∧
      nlink ((op.run s).2.stores.pool.cell m) = ushort ((nlink (s.stores.pool.cell m) : Int) + 1) := by
  have run := making.absent absent
  rw [making.need absent, run] at room
  rw [run]
  generalize outcome : newNode s₁ image m (Bytes.cstr c tail) = o at *
  obtain ⟨r, s'⟩ := o
  obtain ⟨q, popped, zero, errno, made, links, _⟩ := newNode_made good making.glance making.live making.ok plain short
    making.place outcome room
  exact ⟨q, popped, zero, errno, made, links⟩

theorem outcome (fresh : ∀ q, Fresh ((image q).take 128) q ∧ (isdir ((image q).take 128) ≠ 0 ↔ isDir)) :
    LinkOutcome L s m c isDir (op.run s).1 (op.run s).2 := by
  cases step : child s.stores.pool m c with
  | some k =>
    rw [making.present k step]
    exact .exists step making.glance
  | none =>
    obtain ⟨q, _, zero, errno, made, _⟩ := making.new good plain short room step
    rw [zero]
    exact .made step made (fresh q).1 (fresh q).2 errno

end Making

/-- What `sfs_unlink` does where the path leads to a node. -/
theorem sfsUnlink_there (tail : Bytes) (found : pathToInum s path = (⟨toInum (some k), m⟩, s₁)) (name : basename path = c)
    (small : k < 65536) : sfsUnlink s path tail = (0, unlinkNode s₁ k m (Bytes.cstr c tail)) := by
  have number : ushort k = k := ushort_nat small
  simp only [sfsUnlink, found, name, toInum, number, unlinkNode]
  exact if_neg (by omega)

theorem sfsRmdir_there (tail : Bytes) (found : pathToInum (pathBasename s path) path = (⟨toInum (some k), m⟩, s₁))
    (name : basename path = c) (small : k < 65536) :
    sfsRmdir s path tail = (0, rmdirNode s₁ k m (Bytes.cstr c tail)) := by
  have number : ushort k = k := ushort_nat small
  simp only [sfsRmdir, found, name, toInum, number, rmdirNode]
  exact if_neg (by omega)

section

variable (good : Good s L fl) (proper : Proper s path (cs ++ [c]))

include good proper

theorem sfsCreate_making (tail : Bytes) : ∃ m s₁, walk (child s.stores.pool) 2 cs = some m ∧
    Making L s (.create path tail) m c tail s₁ (fnodeImage · m) := by
  obtain ⟨m, walks, live, ok, lookup⟩ := proper.resolve good
  obtain ⟨s₁, found, glance⟩ := lookup s (.refl s)
  have range := good.owned.node_range live
  have name : basename path = c := by rw [proper.eq, basename_render proper.last.noSlash]
  refine ⟨m, s₁, walks, live, ok, glance, fun q => fnodeImage_place, fun q => pno_fnodeImage (by omega), fun k step => ?_,
    fun absent => ?_, fun absent => ?_⟩
  · rw [step] at found
    have run := sfsCreate_present tail (by rw [found]; exact good.toInum_child_pos live step)
    rw [found] at run
    exact run
  · rw [absent] at found
    simp only [inodeNeed, found]
    exact if_neg (by rw [toInum_none]; omega)
  · rw [absent] at found
    exact sfsCreate_absent tail found name (by omega)

/-- What `sfs_create` makes where the path leads to nothing. -/
theorem sfsCreate_new (short : c.length ≤ 13)
    (room : Room s.stores.pool (inodeNeed s (.create path tail)) (sfsCreate s path tail).2)
    (walks : walk (child s.stores.pool) 2 cs = some m) (absent : child s.stores.pool m c = none) :
    ∃ q, (freeInodePop s).1 = q ∧ (sfsCreate s path tail).1 = 0 ∧ (sfsCreate s path tail).2.errno = 0 ∧
      Made L s (sfsCreate s path tail).2 q m ((fnodeImage q m).take 128) c ∧
      nlink ((sfsCreate s path tail).2.stores.pool.cell m) = ushort ((nlink (s.stores.pool.cell m) : Int) + 1) := by
  obtain ⟨m', s₁, walks', making⟩ := sfsCreate_making good proper tail
  obtain rfl : m' = m := Option.some.inj (walks'.symm.trans walks)
  exact making.new good proper.last short room absent

theorem sfsCreate_spec (short : c.length ≤ 13)
    (room : Room s.stores.pool (inodeNeed s (.create path tail)) (sfsCreate s path tail).2) :
    ∃ m, walk (child s.stores.pool) 2 cs = some m ∧ m ∈ L ∧ DirOk s.stores.pool m ∧
      LinkOutcome L s m c False (sfsCreate s path tail).1 (sfsCreate s path tail).2 := by
  obtain ⟨m, s₁, walks, making⟩ := sfsCreate_making good proper tail
  refine ⟨m, walks, making.live, making.ok, making.outcome good proper.last short room fun q => ?_⟩
  obtain ⟨fresh, file⟩ := fnodeImage_fresh (q := q) (m := m)
  exact ⟨fresh, by simp [file]⟩

theorem sfsMkdir_making (tail : Bytes) : ∃ m s₁, walk (child s.stores.pool) 2 cs = some m ∧
    Making L s (.mkdir path tail) m c tail s₁ (dnodeImage · m) := by
  obtain ⟨m, walks, live, ok, lookup⟩ := proper.resolve good
  obtain ⟨s₁, found, glance⟩ := lookup (pathBasename s path) (.of_fault _)
  obtain ⟨s₂, found₂, _⟩ := lookup s (.refl s)
  have range := good.owned.node_range live
  have name : basename path = c := by rw [proper.eq, basename_render proper.last.noSlash]
  refine ⟨m, s₁, walks, live, ok, glance, fun q => dnodeImage_place, fun q => pno_dnodeImage (by omega), fun k step => ?_,
    fun absent => ?_, fun absent => ?_⟩
  · rw [step] at found
    have run := sfsMkdir_present tail (by rw [found]; exact good.toInum_child_pos live step)
    rw [found] at run
    exact run
  · rw [absent] at found₂
    simp only [inodeNeed, found₂]
    exact if_neg (by rw [toInum_none]; omega)
  · rw [absent] at found
    exact sfsMkdir_absent tail found name (by omega)

/-- What `sfs_mkdir` makes where the path leads to nothing. -/
theorem sfsMkdir_new (short : c.length ≤ 13)
    (room : Room s.stores.pool (inodeNeed s (.mkdir path tail)) (sfsMkdir s path tail).2)
    (walks : walk (child s.stores.pool) 2 cs = some m) (absent : child s.stores.pool m c = none) :
    ∃ q, (freeInodePop s).1 = q ∧ (sfsMkdir s path tail).1 = 0 ∧ (sfsMkdir s path tail).2.errno = 0 ∧
      Made L s (sfsMkdir s path tail).2 q m ((dnodeImage q m).take 128) c ∧
      nlink ((sfsMkdir s path tail).2.stores.pool.cell m) = ushort ((nlink (s.stores.pool.cell m) : Int) + 1) := by
  obtain ⟨m', s₁, walks', making⟩ := sfsMkdir_making good proper tail
  obtain rfl : m' = m := Option.some.inj (walks'.symm.trans walks)
  exact making.new good proper.last short room absent

theorem sfsMkdir_spec (short : c.length ≤ 13)
    (room : Room s.stores.pool (inodeNeed s (.mkdir path tail)) (sfsMkdir s path tail).2) :
    ∃ m, walk (child s.stores.pool) 2 cs = some m ∧ m ∈ L ∧ DirOk s.stores.pool m ∧
      LinkOutcome L s m c True (sfsMkdir s path tail).1 (sfsMkdir s path tail).2 := by
  obtain ⟨m, s₁, walks, making⟩ := sfsMkdir_making good proper tail
  refine ⟨m, walks, making.live, making.ok, making.outcome good proper.last short room fun q => ?_⟩
  obtain ⟨fresh, dir⟩ := dnodeImage_fresh (q := q) (m := m)
  exact ⟨fresh, by simpa using dir⟩

omit proper in
/-- A directory does not contain itself. -/
theorem child_ne_parent (walks : walk (child s.stores.pool) 2 cs = some m)
    (step : child s.stores.pool m c = some k) : m ≠ k := by
  rintro rfl
  have deeper : walk (child s.stores.pool) 2 (cs ++ [c]) = some m := Walk.concat_some.mpr ⟨m, walks, step⟩
  have same := congrArg List.length (good.tree.unique walks deeper)
  rw [List.length_append, List.length_singleton] at same
  omega

/-- A file is cleared and given back, and then its entry is dropped. -/
theorem sfsUnlink_removed (tail : Bytes) (notDir : ¬ DirAt s (cs ++ [c])) (walks : walk (child s.stores.pool) 2 cs = some m)
    (live : m ∈ L) (ok : DirOk s.stores.pool m) (step : child s.stores.pool m c = some k) :
    (sfsUnlink s path tail).1 = 0 ∧ isdir (s.stores.pool.cell k) = 0 ∧
      (∃ r, entName s.stores.pool m r = c ∧ r < size (s.stores.pool.cell m) ∧
        Removal L (L \ {k}) s (sfsUnlink s path tail).2 k m r ((blocksOf s.stores.pool k).reverse ++ fl)) ∧
      nlink ((sfsUnlink s path tail).2.stores.pool.cell m) = ushort ((nlink (s.stores.pool.cell m) : Int) - 1) ∧
      Cleared L s.stores.pool (sfsUnlink s path tail).2.stores.pool k m := by
  obtain ⟨m', walks', _, _, lookup⟩ := proper.resolve good
  obtain rfl := Option.some.inj (walks.symm.trans walks')
  obtain ⟨s₁, found, glance⟩ := lookup s (.refl s)
  have name : basename path = c := by rw [proper.eq, basename_render proper.last.noSlash]
  have same := glance.stores_eq
  obtain ⟨live', lower, upper, _⟩ := good.child_pos live step
  have file := not_dirAt good proper notDir (Walk.concat_some.mpr ⟨m, walks, step⟩)
  obtain ⟨r, within, _, hit, _⟩ := ok.row_of_child step
  rw [step] at found
  rw [sfsUnlink_there tail found name (by omega)]
  have fit := (ok.named r within).2
  rw [hit] at fit
  generalize endIs : unlinkNode s₁ k m (Bytes.cstr c tail) = s'
  have ok₁ : DirOk s₁.stores.pool m := by rw [same]; exact ok
  have file₁ : isdir (s₁.stores.pool.cell k) = 0 := by rw [same]; exact file
  have within₁ : r < size (s₁.stores.pool.cell m) := by rw [same]; exact within
  have hit₁ : entName s₁.stores.pool m r = c := by rw [same]; exact hit
  obtain ⟨removal, cleared, links, _⟩ := unlinkNode_spec (r := r) (good.glance glance) live live'
    ok₁ file₁ within₁ hit₁ proper.last.noNul fit endIs
  rw [same] at removal cleared links
  exact ⟨rfl, file, ⟨r, hit, within, removal.of_glance glance⟩, links, cleared⟩

theorem sfsUnlink_spec (tail : Bytes) (notDir : ¬ DirAt s (cs ++ [c])) :
    ∃ m, walk (child s.stores.pool) 2 cs = some m ∧ m ∈ L ∧ DirOk s.stores.pool m ∧
      UnlinkOutcome L s m c fl (sfsUnlink s path tail).1 (sfsUnlink s path tail).2 := by
  obtain ⟨m, walks, live, ok, lookup⟩ := proper.resolve good
  refine ⟨m, walks, live, ok, ?_⟩
  cases step : child s.stores.pool m c with
  | none =>
    obtain ⟨s₁, found, glance⟩ := lookup s (.refl s)
    rw [step] at found
    have run : sfsUnlink s path tail = (-ENOENT, s₁) := by
      simp only [sfsUnlink, found]
      exact if_pos (by rw [toInum_none]; omega)
    rw [run]
    exact .absent step glance
  | some k =>
    obtain ⟨zero, file, ⟨r, hit, within, removal⟩, _, cleared⟩ := sfsUnlink_removed good proper tail notDir walks live ok step
    rw [zero]
    exact .removed step file hit within removal cleared

/-- A directory is emptied, and then its entry is dropped. -/
theorem sfsRmdir_removed (tail : Bytes) (notFile : ¬ FileAt s (cs ++ [c])) (walks : walk (child s.stores.pool) 2 cs = some m)
    (live : m ∈ L) (ok : DirOk s.stores.pool m) (step : child s.stores.pool m c = some k) :
    (sfsRmdir s path tail).1 = 0 ∧ isdir (s.stores.pool.cell k) ≠ 0 ∧
      (∃ r, entName s.stores.pool m r = c ∧ r < size (s.stores.pool.cell m) ∧
        Removal L L s (sfsRmdir s path tail).2 k m r fl) ∧
      nlink ((sfsRmdir s path tail).2.stores.pool.cell m) = ushort ((nlink (s.stores.pool.cell m) : Int) - 1) ∧
      ∃ p₁ f buf, Repaged L s.stores.pool p₁ k 0 f ∧
        Repaged L p₁ (sfsRmdir s path tail).2.stores.pool m (size (s.stores.pool.cell m) - 1) buf := by
  obtain ⟨m', walks', _, _, lookup⟩ := proper.resolve good
  obtain rfl := Option.some.inj (walks.symm.trans walks')
  obtain ⟨s₁, found, glance⟩ := lookup (pathBasename s path) (.of_fault _)
  have name : basename path = c := by rw [proper.eq, basename_render proper.last.noSlash]
  have same := glance.stores_eq
  obtain ⟨live', lower, upper, _⟩ := good.child_pos live step
  have dir := not_fileAt good proper notFile (Walk.concat_some.mpr ⟨m, walks, step⟩)
  obtain ⟨r, within, _, hit, _⟩ := ok.row_of_child step
  rw [step] at found
  rw [sfsRmdir_there tail found name (by omega)]
  have fit := (ok.named r within).2
  rw [hit] at fit
  generalize endIs : rmdirNode s₁ k m (Bytes.cstr c tail) = s'
  have ok₁ : DirOk s₁.stores.pool m := by rw [same]; exact ok
  have dir₁ : isdir (s₁.stores.pool.cell k) ≠ 0 := by rw [same]; exact dir
  have within₁ : r < size (s₁.stores.pool.cell m) := by rw [same]; exact within
  have hit₁ : entName s₁.stores.pool m r = c := by rw [same]; exact hit
  obtain ⟨removal, _, emptied, links, _⟩ := rmdirNode_spec (r := r) (good.glance glance) live live'
    (child_ne_parent good walks step) ok₁ dir₁ within₁ hit₁ proper.last.noNul fit endIs
  rw [same] at emptied links
  exact ⟨rfl, dir, ⟨r, hit, within, removal.of_glance glance⟩, links, emptied⟩

theorem sfsRmdir_spec (tail : Bytes) (notFile : ¬ FileAt s (cs ++ [c])) :
    ∃ m, walk (child s.stores.pool) 2 cs = some m ∧ m ∈ L ∧ DirOk s.stores.pool m ∧
      RmdirOutcome L s m c fl (sfsRmdir s path tail).1 (sfsRmdir s path tail).2 := by
  obtain ⟨m, walks, live, ok, lookup⟩ := proper.resolve good
  refine ⟨m, walks, live, ok, ?_⟩
  cases step : child s.stores.pool m c with
  | none =>
    obtain ⟨s₁, found, glance⟩ := lookup (pathBasename s path) (.of_fault _)
    rw [step] at found
    have run : sfsRmdir s path tail = (-ENOENT, s₁) := by
      simp only [sfsRmdir, found]
      exact if_pos (by rw [toInum_none]; omega)
    rw [run]
    exact .absent step glance
  | some k =>
    obtain ⟨zero, dir, ⟨r, hit, within, removal⟩, _⟩ := sfsRmdir_removed good proper tail notFile walks live ok step
    rw [zero]
    exact .removed step dir hit within removal

end

end Sfs
