import Sfs.Live
import Sfs.Range
import Sfs.Scan

namespace Sfs

/-- What the VFS promises of a request that reads. -/
def ReadVfs (s : State) : Op → Prop
  | .read path size offset => (∃ q, Proper s path q ∧ ¬ DirAt s q) ∧ offset + size < 2147483648
  | .readdir path => ∃ q, Proper s path q ∧ ¬ FileAt s q
  | .getattr path | .open path => ∃ q, Proper s path q
  | _ => True

/-- A permitted request with a path that fits into its copy. The name of a
directory to be removed fits as well, whether it is there or not. -/
structure Bounded (s : State) (op : Op) : Prop extends Permit s op where
  reads : ReadVfs s op
  path : op.path.length < PATH_MAX
  name : ∀ path tail, op = .rmdir path tail → (basename path).length ≤ 13

variable {L : Set Nat} {s s₁ s' : State} {fl : List Nat} {k m len size offset : Nat} {buf tail : Bytes} {c : List UInt8}
  {q cs : Path} {path : CPath} {op : Op} {ops : List Op} {disk : Bytes}

/-- A lookup below directories leaves no array. -/
theorem Proper.lookup_ub (proper : Proper s path q) (good : Good s L fl) (short : path.length < PATH_MAX)
    (glance : Glance s s₁) : (pathToInum s₁ path).2.ub = s₁.ub := by
  rcases List.eq_nil_or_concat q with rfl | ⟨cs, c, rfl⟩
  · rw [proper.eq]
    simp [pathToInum, render, joinSlash, pathWalk, PATH_MAX, State.fault]
  · rw [List.concat_eq_append] at proper
    obtain ⟨m, walks, live, ok, _⟩ := proper.resolve good
    have same := glance.stores_eq
    obtain ⟨s', run, _, ub⟩ := pathToInum_spec (s := s₁) cs (by rw [same]; exact good.owned) (by rw [same]; exact good.tree)
      (fun x member => proper.plain x (List.mem_append_left _ member)) proper.last (by rw [same]; exact walks)
      (by rw [same]; exact ok.dir)
    rw [proper.eq, run]
    exact ub (by rwa [← proper.eq])

theorem fstreamRead_snd (s : State) (inum size offset : Int) : (fstreamRead s inum size offset).2 =
    (readBlocks ((fnodeListing s (ushort inum)).2.fault ((int32 (offset + size)).tdiv BLOCK_SIZE + 1 < offset.tdiv BLOCK_SIZE ||
        int32 (offset + size) ≠ offset + size || offset < 0)) (fnodeListing s (ushort inum)).1
      ((int32 (offset + size)).tdiv BLOCK_SIZE + 1) (offset.tdiv BLOCK_SIZE) Bytes.zero 0
      ((int32 (offset + size)).tdiv BLOCK_SIZE + 1 - offset.tdiv BLOCK_SIZE).toNat).2 := by
  rw [fstreamRead]

/-- Nor does a read that does not overflow. -/
theorem fstreamRead_ub (owned : Owned L s.stores.pool) (live : k ∈ L) (file : isdir (s.stores.pool.cell k) = 0)
    (small : offset + len < 2147483648) : (fstreamRead s k len offset).2.ub = s.ub := by
  have range := owned.node_range live
  have limit := owned.rows_le live file
  obtain ⟨f, listed, _⟩ := owned.fnodeListing_spec live file
  have inum : ushort k = k := ushort_nat (by omega)
  have stop : (((offset + len) / 512 : Nat) : Int) + 1 = ((offset + len) / 512 + 1 : Nat) := rfl
  have rounds : ((((offset + len) / 512 + 1 : Nat) : Int) - (offset / 512 : Nat)).toNat =
      (offset + len) / 512 + 1 - offset / 512 := by omega
  have noFault : (decide ((((offset + len) / 512 + 1 : Nat) : Int) < (offset / 512 : Nat)) ||
      decide (((offset + len : Nat) : Int) ≠ (offset : Int) + len) || decide ((offset : Int) < 0)) = false := by
    simp
    omega
  obtain ⟨state, _⟩ := readBlocks_spec (s := { s with f }) (offset / 512)
    ((offset + len) / 512 + 1 - offset / 512) 0 Bytes.zero limit
    (show offset / 512 + ((offset + len) / 512 + 1 - offset / 512) = (offset + len) / 512 + 1 by omega)
  have run := fstreamRead_snd s k len offset
  simp only [inum, listed, tdiv_nat, stop, stop_eq small, rounds, noFault, fault_false, state] at run
  exact (congrArg State.ub run).trans (setF_ub s f)

namespace Good

variable (good : Good s L fl)

include good

theorem create_ub (permit : Permit s (.create path tail)) (short : path.length < PATH_MAX) :
    (sfsCreate s path tail).2.ub = s.ub := by
  obtain ⟨cs, c, proper, fits⟩ := permit.vfs
  have room : Room s.stores.pool (inodeNeed s (.create path tail)) (sfsCreate s path tail).2 := permit.room
  obtain ⟨m, walks, live, ok, lookup⟩ := proper.resolve good
  obtain ⟨s₁, found, glance⟩ := lookup s (.refl s)
  have clear := proper.lookup_ub good short (.refl s)
  have range := good.owned.node_range live
  rw [found] at clear
  cases leads : child s.stores.pool m c with
  | some k =>
    obtain ⟨_, positive, _⟩ := good.child_pos live leads
    rw [leads] at found
    have run : sfsCreate s path tail = (-EEXIST, s₁) := by
      simp only [sfsCreate, found]
      exact if_pos (toInum_some_pos.mpr (by omega))
    rwa [run]
  | none =>
    have name : basename path = c := by rw [proper.eq, basename_render proper.last.noSlash]
    rw [leads] at found
    have run := sfsCreate_absent tail found name (by omega)
    have need : inodeNeed s (.create path tail) = linkNeed s.stores.pool m := by
      simp only [inodeNeed, found]
      exact if_neg (by rw [toInum_none]; omega)
    rw [need, run] at room
    rw [run]
    generalize outcome : newNode s₁ (fnodeImage · m) m (Bytes.cstr c tail) = o at *
    obtain ⟨r, s'⟩ := o
    obtain ⟨_, _, _, _, _, _, ub⟩ := newNode_made good glance live ok proper.last fits (fun q => fnodeImage_place) outcome room
    exact ub.trans clear

theorem mkdir_ub (permit : Permit s (.mkdir path tail)) (short : path.length < PATH_MAX) :
    (sfsMkdir s path tail).2.ub = s.ub := by
  obtain ⟨cs, c, proper, fits⟩ := permit.vfs
  have room : Room s.stores.pool (inodeNeed s (.mkdir path tail)) (sfsMkdir s path tail).2 := permit.room
  have glance₀ : Glance s (pathBasename s path) := .of_fault _
  obtain ⟨m, walks, live, ok, lookup⟩ := proper.resolve good
  obtain ⟨s₁, found, glance⟩ := lookup (pathBasename s path) glance₀
  have name : basename path = c := by rw [proper.eq, basename_render proper.last.noSlash]
  have start : (pathBasename s path).ub = s.ub := pathBasename_fits.mpr (by rw [name]; exact fits) s
  have clear := (proper.lookup_ub good short glance₀).trans start
  have range := good.owned.node_range live
  rw [found] at clear
  cases leads : child s.stores.pool m c with
  | some k =>
    obtain ⟨_, positive, _⟩ := good.child_pos live leads
    rw [leads] at found
    have run : sfsMkdir s path tail = (-EEXIST, s₁) := by
      simp only [sfsMkdir, found]
      exact if_pos (toInum_some_pos.mpr (by omega))
    rwa [run]
  | none =>
    obtain ⟨s₂, found₂, _⟩ := lookup s (.refl s)
    rw [leads] at found found₂
    have run := sfsMkdir_absent tail found name (by omega)
    have need : inodeNeed s (.mkdir path tail) = linkNeed s.stores.pool m := by
      simp only [inodeNeed, found₂]
      exact if_neg (by rw [toInum_none]; omega)
    rw [need, run] at room
    rw [run]
    generalize outcome : newNode s₁ (dnodeImage · m) m (Bytes.cstr c tail) = o at *
    obtain ⟨r, s'⟩ := o
    obtain ⟨_, _, _, _, _, _, ub⟩ := newNode_made good glance live ok proper.last fits (fun q => dnodeImage_place) outcome room
    exact ub.trans clear

theorem unlink_ub (vfs : Vfs s (.unlink path tail)) (short : path.length < PATH_MAX) :
    (sfsUnlink s path tail).2.ub = s.ub := by
  obtain ⟨cs, c, proper, notDir⟩ := vfs
  obtain ⟨m, walks, live, ok, lookup⟩ := proper.resolve good
  obtain ⟨s₁, found, glance⟩ := lookup s (.refl s)
  have clear := proper.lookup_ub good short (.refl s)
  have name : basename path = c := by rw [proper.eq, basename_render proper.last.noSlash]
  have same := glance.stores_eq
  rw [found] at clear
  cases leads : child s.stores.pool m c with
  | none =>
    rw [leads] at found
    have run : sfsUnlink s path tail = (-ENOENT, s₁) := by
      simp only [sfsUnlink, found]
      exact if_pos (by rw [toInum_none]; omega)
    rwa [run]
  | some k =>
    obtain ⟨live', lower, upper, _⟩ := good.child_pos live leads
    have file := not_dirAt good proper notDir (Walk.concat_some.mpr ⟨m, walks, leads⟩)
    obtain ⟨r, within, _, hit, _⟩ := ok.row_of_child leads
    have fit := (ok.named r within).2
    rw [hit] at fit
    rw [leads] at found
    rw [sfsUnlink_there tail found name (by omega)]
    rw [← same] at ok file within hit
    generalize endIs : unlinkNode s₁ k m (Bytes.cstr c tail) = s'
    obtain ⟨_, _, _, ub⟩ := unlinkNode_spec (good.glance glance) live live' ok file within hit proper.last.noNul fit endIs
    exact ub.trans clear

theorem rmdir_ub (vfs : Vfs s (.rmdir path tail)) (short : path.length < PATH_MAX) (named : (basename path).length ≤ 13) :
    (sfsRmdir s path tail).2.ub = s.ub := by
  obtain ⟨cs, c, proper, notFile⟩ := vfs
  have glance₀ : Glance s (pathBasename s path) := .of_fault _
  obtain ⟨m, walks, live, ok, lookup⟩ := proper.resolve good
  obtain ⟨s₁, found, glance⟩ := lookup (pathBasename s path) glance₀
  have name : basename path = c := by rw [proper.eq, basename_render proper.last.noSlash]
  have start : (pathBasename s path).ub = s.ub := pathBasename_fits.mpr named s
  have clear := (proper.lookup_ub good short glance₀).trans start
  have same := glance.stores_eq
  rw [found] at clear
  cases leads : child s.stores.pool m c with
  | none =>
    rw [leads] at found
    have run : sfsRmdir s path tail = (-ENOENT, s₁) := by
      simp only [sfsRmdir, found]
      exact if_pos (by rw [toInum_none]; omega)
    rwa [run]
  | some k =>
    obtain ⟨live', lower, upper, _⟩ := good.child_pos live leads
    have dir := not_fileAt good proper notFile (Walk.concat_some.mpr ⟨m, walks, leads⟩)
    obtain ⟨r, within, _, hit, _⟩ := ok.row_of_child leads
    have fit := (ok.named r within).2
    rw [hit] at fit
    rw [leads] at found
    rw [sfsRmdir_there tail found name (by omega)]
    have ne := child_ne_parent good walks leads
    rw [← same] at ok dir within hit
    generalize endIs : rmdirNode s₁ k m (Bytes.cstr c tail) = s'
    obtain ⟨_, _, _, _, ub⟩ := rmdirNode_spec (good.glance glance) live live' ne ok dir within hit proper.last.noNul fit endIs
    exact ub.trans clear

theorem write_ub (permit : Permit s (.write path buf size offset)) (short : path.length < PATH_MAX) :
    (sfsWrite s path buf size offset).2.ub = s.ub := by
  obtain ⟨q, proper, notDir⟩ := permit.vfs
  have fits := permit.fits
  have clear := proper.lookup_ub good short (.refl s)
  obtain ⟨cs, m, c, located, found, file⟩ := good.located_file proper notDir
  have glance := pathToInum_glance s path
  generalize after : (pathToInum s path).2 = s₁ at glance clear
  cases leads : child s.stores.pool m c with
  | none =>
    rw [leads] at found
    have run : sfsWrite s path buf size offset = (-ENOENT, s₁) := by
      simp only [sfsWrite, found, after]
      exact if_pos (by rw [toInum_none]; omega)
    rwa [run]
  | some k =>
    obtain ⟨live, lower, _⟩ := good.child_pos located.live leads
    have number : (pathToInum s path).1.inum = k := by rw [found, leads, toInum]
    obtain ⟨sizeLower, offsetLower, small, _⟩ := fits (by rw [number]; omega)
    obtain ⟨len, lenIs⟩ := Int.eq_ofNat_of_zero_le sizeLower
    obtain ⟨start, startIs⟩ := Int.eq_ofNat_of_zero_le offsetLower
    have good₁ := good.glance glance
    have file₁ := file k leads
    rw [← glance.stores_eq] at file₁
    rw [sfsWrite_eq number after, afterWrite_ub, lenIs, startIs]
    exact (fstreamWrite_defined good₁.owned good₁.list good₁.blocks live file₁ buf (by omega)).trans clear

theorem truncate_ub (permit : Permit s (.truncate path offset)) (short : path.length < PATH_MAX) :
    (sfsTruncate s path offset).2.ub = s.ub := by
  obtain ⟨q, proper, notDir⟩ := permit.vfs
  have fits := permit.fits
  have clear := proper.lookup_ub good short (.refl s)
  obtain ⟨cs, m, c, located, found, file⟩ := good.located_file proper notDir
  have glance := pathToInum_glance s path
  generalize after : (pathToInum s path).2 = s₁ at glance clear
  cases leads : child s.stores.pool m c with
  | none =>
    rw [leads] at found
    have run : sfsTruncate s path offset = (-ENOENT, s₁) := by
      simp only [sfsTruncate, found, after]
      exact if_pos (by rw [toInum_none]; omega)
    rwa [run]
  | some k =>
    obtain ⟨live, lower, upper, _⟩ := good.child_pos located.live leads
    have file₁ := file k leads
    have rows := good.owned.rows_le live file₁
    have number : (pathToInum s path).1.inum = k := by rw [found, leads, toInum]
    obtain ⟨newLower, newFits⟩ := fits (by rw [number]; omega)
    obtain ⟨n, newIs⟩ := Int.eq_ofNat_of_zero_le newLower
    rw [number, newIs, Int.toNat_natCast, Int.toNat_natCast] at newFits
    have good₁ := good.glance glance
    rw [← glance.stores_eq] at file₁
    have defined := truncateTo_defined (n := n) (v := int32 offset) good₁.owned good₁.list good₁.blocks live file₁ (by omega)
    rw [sfsTruncate_eq number after (by omega) newIs]
    exact defined.trans clear

theorem read_ub (proper : Proper s path q) (notDir : ¬ DirAt s q) (small : offset + size < 2147483648)
    (short : path.length < PATH_MAX) : (sfsRead s path size offset).2.ub = s.ub := by
  have clear := proper.lookup_ub good short (.refl s)
  obtain ⟨cs, m, c, located, found, file⟩ := good.located_file proper notDir
  have glance := pathToInum_glance s path
  generalize after : (pathToInum s path).2 = s₁ at glance clear
  cases leads : child s.stores.pool m c with
  | none =>
    rw [leads] at found
    have run : sfsRead s path size offset = (⟨-ENOENT, []⟩, s₁) := by
      simp only [sfsRead, found, after]
      exact if_pos (by rw [toInum_none]; omega)
    rwa [run]
  | some k =>
    obtain ⟨live, lower, upper, _⟩ := good.child_pos located.live leads
    have number : (pathToInum s path).1.inum = k := by rw [found, leads, toInum]
    have file₁ := file k leads
    rw [← glance.stores_eq] at file₁
    rw [sfsRead_eq number after, int32_nat (by omega), int32_nat (n := offset) (by omega)]
    exact (fstreamRead_ub (good.glance glance).owned live file₁ small).trans clear

theorem readdir_ub (proper : Proper s path q) (notFile : ¬ FileAt s q) (short : path.length < PATH_MAX) :
    (sfsReaddir s path).2.ub = s.ub := by
  have clear := proper.lookup_ub good short (.refl s)
  have found : (pathToInum s path).1.inum = toInum (walk (child s.stores.pool) 2 q) := by
    rw [proper.eq]
    exact proper.namei_eq good
  have glance := pathToInum_glance s path
  generalize after : (pathToInum s path).2 = s₁ at glance clear
  cases reach : walk (child s.stores.pool) 2 q with
  | none =>
    rw [reach] at found
    have run : sfsReaddir s path = ((-ENOENT, []), s₁) := by
      simp only [sfsReaddir, found, after]
      exact if_pos (by rw [toInum_none]; omega)
    rwa [run]
  | some k =>
    obtain ⟨live, isOk⟩ := good.tree.reach reach
    have range := good.owned.node_range live
    have dir := not_fileAt good proper notFile reach
    have rows := good.tree.rows_le good.owned live (isOk dir)
    have owned := (good.glance glance).owned
    rw [← glance.stores_eq] at dir rows
    obtain ⟨d, listed, _⟩ := owned.dnodeListing_spec live dir
    rw [reach, toInum] at found
    have number : ushort k = k := ushort_nat (by omega)
    have inside : decide (Sfs.size (s₁.stores.pool.cell k) > DENTRY_MAX_SIZE) = false :=
      decide_eq_false (by simp only [DENTRY_MAX_SIZE]; omega)
    have run : (sfsReaddir s path).2 = { s₁ with d } := by
      rw [sfsReaddir, found, after, if_neg (by simp), number]
      simp only [listed, inside, fault_false]
    exact (congrArg State.ub run).trans clear

theorem getattr_ub (proper : Proper s path q) (short : path.length < PATH_MAX) : (sfsGetattr s path).2.ub = s.ub := by
  have clear := proper.lookup_ub good short (.refl s)
  rw [sfsGetattr]
  split
  · exact clear
  · exact clear

/-- No array is left by a request. -/
theorem step_ub (bounded : Bounded s op) : (step s op).ub = s.ub := by
  obtain ⟨permit, reads, short, named⟩ := bounded
  cases op with
  | create => exact good.create_ub permit short
  | mkdir => exact good.mkdir_ub permit short
  | unlink => exact good.unlink_ub permit.vfs short
  | rmdir path tail => exact good.rmdir_ub permit.vfs short (named path tail rfl)
  | write => exact good.write_ub permit short
  | truncate => exact good.truncate_ub permit short
  | getattr =>
    obtain ⟨q, proper⟩ := reads
    exact good.getattr_ub proper short
  | «open» =>
    obtain ⟨q, proper⟩ := reads
    exact proper.lookup_ub good short (.refl s)
  | read =>
    obtain ⟨⟨q, proper, notDir⟩, small⟩ := reads
    exact good.read_ub proper notDir small short
  | readdir =>
    obtain ⟨q, proper, notFile⟩ := reads
    exact good.readdir_ub proper notFile short

end Good

/-- In every run with bounded paths no index leaves its array, and no sum of an
offset and a size overflows. -/
theorem run_defined (run : Run step Bounded (sfsInit disk) ops s) : s.ub = false := by
  have holds : (∃ L fl, Good s L fl) ∧ s.ub = false := by
    refine run.invariant (I := fun s => (∃ L fl, Good s L fl) ∧ s.ub = false)
      ⟨⟨_, _, (sfsInit_initial disk).good⟩, sfsInit_ub disk⟩ fun t op holds bounded => ?_
    obtain ⟨⟨L, fl, good⟩, clear⟩ := holds
    obtain ⟨L', fl', effect⟩ := good.step_effect bounded.toPermit
    exact ⟨⟨L', fl', effect.good good⟩, (good.step_ub bounded).trans clear⟩
  exact holds.2

/-- The run that makes `/a` and writes to it. -/
theorem run_defined_written : (step firstState (.write (render [[97]]) Bytes.zero 600 0)).ub = false := by
  obtain ⟨k, first⟩ := firstState_firstFile
  have short : (render [[97]]).length < PATH_MAX := by decide
  have made : Run step Bounded (sfsInit Bytes.zero) [.create (render [[97]]) Bytes.zero] firstState :=
    .next .nil ⟨ready_first.permit, trivial, short, fun _ _ asked => by cases asked⟩
  exact run_defined (made.next ⟨(first.ready_write Bytes.zero).permit, trivial, short, fun _ _ asked => by cases asked⟩)

end Sfs
