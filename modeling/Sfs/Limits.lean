import Sfs.Live
import Sfs.Shrink

namespace Sfs

/-- A state between two requests in which the blocks of every file cover its bytes. -/
structure Settled (s : State) (L : Set Nat) (fl : List Nat) : Prop extends Good s L fl where
  covered : ∀ k ∈ L, isdir (s.stores.pool.cell k) = 0 →
    fsize (s.stores.pool.cell k) ≤ 512 * size (s.stores.pool.cell k)

/-- Writes start within the file, end within the largest size and get their
blocks; a truncation makes the file smaller. -/
def Limited (s : State) : Op → Prop
  | .write path buf size offset => 0 < (pathToInum s path).1.inum →
    offset ≤ fsize (inodeLoad s (pathToInum s path).1.inum) ∧ offset + size ≤ FCONTENT_MAX_SIZE ∧
      Call.freeBlockAllocate (-1) ∉ (step s (.write path buf size offset)).trace
  | .truncate path offset => 0 < (pathToInum s path).1.inum → offset < fsize (inodeLoad s (pathToInum s path).1.inum)
  | _ => True

/-- A request within the limits that the code sets. -/
structure InLimits (s : State) (op : Op) : Prop where
  vfs : Vfs s op
  limited : Limited s op
  room : Room s.stores.pool (inodeNeed s op) (step s op)

variable {L L' : Set Nat} {s s' s₁ : State} {fl fl' taken : List Nat} {k m n q e r offset len : Nat} {x buf : Bytes}
  {c key : List UInt8} {cs : Path} {path : CPath} {op : Op}

namespace Settled

variable (settled : Settled s L fl)

include settled

theorem wellFormed : WellFormed L s fl := settled.toGood.wellFormed settled.covered

theorem rows_le (live : k ∈ L) (file : isdir (s.stores.pool.cell k) = 0) : size (s.stores.pool.cell k) ≤ 8344 := by
  have fits := settled.owned.fits k live
  rw [endOf_file file, blknumSize] at fits
  omega

/-- A path that leads to something other than a directory leads to a file. -/
theorem found_file (vfs : ∃ q, Proper s path q ∧ ¬ DirAt s q) (positive : 0 < (pathToInum s path).1.inum) :
    ∃ cs m c k, Located L s path cs m c ∧ child s.stores.pool m c = some k ∧ k ∈ L ∧
      (pathToInum s path).1.inum = k ∧ isdir (s.stores.pool.cell k) = 0 ∧ inodeLoad s k = s.stores.pool.cell k := by
  obtain ⟨q, proper, notDir⟩ := vfs
  obtain ⟨cs, m, c, located, found, file⟩ := settled.toGood.located_file proper notDir
  rw [found] at positive
  cases leads : child s.stores.pool m c with
  | none =>
    rw [leads] at positive
    exact absurd positive (by simp [toInum])
  | some k =>
    obtain ⟨live, _⟩ := settled.toGood.child_pos located.live leads
    rw [leads] at found
    exact ⟨cs, m, c, k, located, leads, live, by rw [found, toInum], file k leads, settled.owned.inodeLoad_eq live⟩

end Settled

/-- Covered files that are as before are covered. -/
theorem covered_kept (covered : ∀ k ∈ L, isdir (s.stores.pool.cell k) = 0 →
      fsize (s.stores.pool.cell k) ≤ 512 * size (s.stores.pool.cell k))
    (kept : ∀ j ∈ L', isdir (s'.stores.pool.cell j) = 0 →
      (j ∈ L ∧ s'.stores.pool.cell j = s.stores.pool.cell j) ∨ fsize (s'.stores.pool.cell j) = 0) :
    ∀ j ∈ L', isdir (s'.stores.pool.cell j) = 0 → fsize (s'.stores.pool.cell j) ≤ 512 * size (s'.stores.pool.cell j) := by
  intro j live file
  rcases kept j live file with ⟨was, same⟩ | empty
  · rw [same] at file ⊢
    exact covered j was file
  · omega

theorem Made.covered (made : Made L s s' q m x key) (settled : Settled s L fl) (live : m ∈ L)
    (ok : DirOk s.stores.pool m) (empty : isdir x = 0 → fsize x = 0) : ∀ j ∈ insert q L, isdir (s'.stores.pool.cell j) = 0 →
    fsize (s'.stores.pool.cell j) ≤ 512 * size (s'.stores.pool.cell j) := by
  refine covered_kept settled.covered fun j live' file => ?_
  rcases live' with rfl | live'
  · rw [made.node settled.toGood live] at file ⊢
    exact Or.inr (empty file)
  · rw [made.isdir_eq settled.toGood live live'] at file
    have ne : j ≠ m := by
      rintro rfl
      exact ok.dir file
    exact Or.inl ⟨live', (made.same settled.toGood live live' ne).cell_eq⟩

theorem Removal.covered (removal : Removal L L' s s' k m r fl') (settled : Settled s L fl)
    (ok : DirOk s.stores.pool m) : ∀ j ∈ L', isdir (s'.stores.pool.cell j) = 0 →
    fsize (s'.stores.pool.cell j) ≤ 512 * size (s'.stores.pool.cell j) := by
  refine covered_kept settled.covered fun j live file => ?_
  have live' := removal.sub live
  have notK : j ≠ k := by
    rintro rfl
    exact (removal.node live).1 file
  rw [removal.isdir_eq live' notK] at file
  have notM : j ≠ m := by
    rintro rfl
    exact ok.dir file
  exact Or.inl ⟨live', (removal.same j live' notK notM).cell_eq⟩

theorem FileStep.settled (change : FileStep L s s' k n fl fl') (settled : Settled s L fl) (live : k ∈ L)
    (file : isdir (s.stores.pool.cell k) = 0) (errno : s'.errno = 0) (within : fsize (s'.stores.pool.cell k) ≤ 512 * n) :
    Settled s' L fl' := by
  have size := change.repaged.choose_spec.resized.size
  have covered := (change.consistent settled.wellFormed.toConsistent live file (by rw [size]; exact within)).covered
  exact ⟨change.good settled.toGood live file errno, covered⟩

theorem fsize_fnodeImage : fsize ((fnodeImage q m).take 128) = 0 := by
  rw [fsize, Bytes.get32_take (by omega), ← Bytes.get32_zero (a := 8)]
  exact Bytes.get32_congr fun j hj => fnodeImage_apply (by omega)

namespace Settled

variable (settled : Settled s L fl)

include settled

/-- A request within the limits is permitted. -/
theorem permit (limits : InLimits s op) : Permit s op := by
  obtain ⟨vfs, limited, room⟩ := limits
  have max : FCONTENT_MAX_SIZE = 4272128 := rfl
  refine ⟨vfs, ?_, room⟩
  cases op with
  | write path buf size offset =>
    intro positive
    obtain ⟨within, limit, _⟩ := limited positive
    obtain ⟨_, _, _, k, _, _, live, found, file, loaded⟩ := settled.found_file vfs positive
    have covered := settled.covered k live file
    rw [found, loaded] at within
    rw [found, Int.toNat_natCast, WriteFits, int32_of_mem (x := size) (by omega) (by omega),
      int32_of_mem (x := offset) (by omega) (by omega)]
    exact ⟨by omega, by omega, by omega, by omega⟩
  | truncate path offset =>
    intro positive
    have within := limited positive
    obtain ⟨_, _, _, k, _, _, live, found, file, loaded⟩ := settled.found_file vfs positive
    have covered := settled.covered k live file
    have rows := settled.rows_le live file
    rw [found, loaded] at within
    rw [found, Int.toNat_natCast, TruncateFits, newBSize, newBlocks_eq (by omega)]
    exact ⟨by omega, Or.inl (by omega)⟩
  | _ => trivial

theorem glance (glance : Glance s s') : Settled s' L fl := by
  refine ⟨settled.toGood.glance glance, ?_⟩
  rw [glance.stores_eq]
  exact settled.covered

/-- An entry that is found is the inode that the path leads to. -/
theorem path_loaded (located : Located L s path cs m c) (leads : child s.stores.pool m c = some k) :
    (pathToInum s path).1.inum = k ∧ inodeLoad s k = s.stores.pool.cell k ∧ k ∈ L ∧ 2 ≤ k := by
  obtain ⟨live, lower, _⟩ := settled.toGood.child_pos located.live leads
  have found := located.found settled.toGood
  rw [leads] at found
  exact ⟨by rw [found, toInum], settled.owned.inodeLoad_eq live, live, lower⟩

/-- A write within the limits gets all its blocks. -/
theorem written {size : Nat} (permit : Permit s (.write path buf size offset))
    (limited : Limited s (.write path buf size offset)) : ∃ fl', Settled (step s (.write path buf size offset)) L fl' := by
  have max : FCONTENT_MAX_SIZE = 4272128 := rfl
  obtain ⟨cs, m, c, located, outcome⟩ := settled.toGood.sfsWrite_spec permit
  rw [Limited, step, Op.run] at limited
  change ∃ fl', Settled (sfsWrite s path buf size offset).2 L fl'
  generalize sfsWrite s path buf size offset = o at *
  obtain ⟨r, s'⟩ := o
  cases outcome with
  | absent _ glance => exact ⟨fl, settled.glance glance⟩
  | @written k e taken fl' s₁ _ leads file glance stored stop errno =>
    obtain ⟨found, loaded, live, lower⟩ := settled.path_loaded located leads
    obtain ⟨within, limit, _⟩ := limited (by rw [found]; omega)
    have covered := settled.covered k live file
    rw [found, loaded] at within
    rw [int32_of_mem (x := size) (by omega) (by omega), int32_of_mem (x := offset) (by omega) (by omega),
      Int.toNat_natCast, Int.toNat_natCast] at stored stop
    have bytes := stored.fsize_eq
    rw [glance.stores_eq] at bytes
    have rows := settled.rows_le live file
    rw [Nat.min_eq_left (lastBlock_le limit), Nat.max_eq_right (start_le_lastBlock offset size)] at stop
    have reach : offset + size ≤ 512 * lastBlock offset size := by
      rw [lastBlock]
      omega
    refine ⟨fl', (stored.fileStep.of_glance glance).settled settled live file errno ?_⟩
    rw [bytes (by omega), glance.stores_eq, stop]
    refine (Nat.min_le_left _ _).trans (Nat.max_le.mpr ⟨?_, ?_⟩)
    · exact covered.trans (Nat.mul_le_mul_left _ (Nat.le_max_right _ _))
    · exact reach.trans (Nat.mul_le_mul_left _ (Nat.le_max_left _ _))
  | short leads _ _ _ failed _ _ =>
    obtain ⟨found, _, _, lower⟩ := settled.path_loaded located leads
    exact absurd failed (limited (by rw [found]; omega)).2.2

/-- A truncation within the limits makes the file smaller. -/
theorem truncated (permit : Permit s (.truncate path offset)) (limited : Limited s (.truncate path offset)) :
    ∃ fl', Settled (step s (.truncate path offset)) L fl' := by
  obtain ⟨cs, m, c, located, outcome⟩ := settled.toGood.sfsTruncate_spec permit
  rw [Limited] at limited
  have shrunk : ∀ k, child s.stores.pool m c = some k → isdir (s.stores.pool.cell k) = 0 →
      k ∈ L ∧ offset < 4294967296 ∧ fsize ((sfsTruncate s path offset).2.stores.pool.cell k) = offset := fun k leads file => by
    obtain ⟨found, loaded, live, lower⟩ := settled.path_loaded located leads
    have within := limited (by rw [found]; omega)
    have covered := settled.covered k live file
    have rows := settled.rows_le live file
    rw [found, loaded] at within
    exact ⟨live, by omega, (sfsTruncate_shrunk settled.wellFormed.accounted live file covered found within).size⟩
  change ∃ fl', Settled (sfsTruncate s path offset).2 L fl'
  generalize sfsTruncate s path offset = o at *
  obtain ⟨r, s'⟩ := o
  cases outcome with
  | absent _ glance => exact ⟨fl, settled.glance glance⟩
  | @shrunk k _ leads file _ _ change errno =>
    obtain ⟨live, small, bytes⟩ := shrunk k leads file
    refine ⟨_, change.settled settled live file errno ?_⟩
    rw [bytes, newBSize, newBlocks_eq small]
    omega
  | @grown k fl' _ _ leads file _ _ _ change errno =>
    obtain ⟨live, small, bytes⟩ := shrunk k leads file
    refine ⟨fl', change.settled settled live file errno ?_⟩
    rw [bytes, newBSize, newBlocks_eq small]
    omega

/-- A new file has no bytes. -/
theorem created {tail : Bytes} (permit : Permit s (.create path tail)) :
    ∃ L' fl', Settled (step s (.create path tail)) L' fl' := by
  obtain ⟨⟨cs, c, proper, short⟩, _, room⟩ := permit
  obtain ⟨m, walks, live, ok, outcome⟩ := sfsCreate_spec settled.toGood proper short room
  cases leads : child s.stores.pool m c with
  | none =>
    have located : Located L s path cs m c := ⟨proper.eq, proper.plain, walks, live, ok⟩
    obtain ⟨q, _, _, errno, made, _⟩ := sfsCreate_new settled.toGood proper short room walks leads
    exact ⟨insert q L, fl, located.made_good settled.toGood short leads made fnodeImage_fresh.1 errno,
      made.covered settled live ok fun _ => fsize_fnodeImage⟩
  | some k =>
    change ∃ L' fl', Settled (sfsCreate s path tail).2 L' fl'
    generalize sfsCreate s path tail = o at *
    obtain ⟨r, s'⟩ := o
    cases outcome with
    | «exists» _ glance => exact ⟨L, fl, settled.glance glance⟩
    | made absent => cases absent.symm.trans leads

/-- The blocks still cover the bytes after a request within the limits. -/
theorem next (limits : InLimits s op) : ∃ L' fl', Settled (step s op) L' fl' := by
  have permit := settled.permit limits
  obtain ⟨L', fl', effect⟩ := settled.toGood.step_effect permit
  have good := effect.good settled.toGood
  generalize after : step s op = s' at effect good ⊢
  cases effect with
  | none glance => exact ⟨L, fl, settled.glance glance⟩
  | create => exact after ▸ settled.created permit
  | mkdir located _ _ made _ dir _ => exact ⟨_, fl, good, made.covered settled located.live located.ok (absurd · dir)⟩
  | unlink located _ _ _ _ removal _ => exact ⟨_, _, good, removal.covered settled located.ok⟩
  | rmdir located _ _ _ _ removal => exact ⟨_, _, good, removal.covered settled located.ok⟩
  | write => exact after ▸ ⟨L, settled.written permit limits.limited⟩
  | spill => exact after ▸ ⟨L, settled.written permit limits.limited⟩
  | truncate => exact after ▸ ⟨L, settled.truncated permit limits.limited⟩

end Settled

theorem settled_init (disk : Bytes) : ∃ L fl, Settled (sfsInit disk) L fl := by
  have good := (sfsInit_initial disk).good
  refine ⟨_, _, good, ?_⟩
  rintro k rfl file
  exact absurd file good.tree.top.dir

/-- In a run within the limits the blocks of the files cover their bytes. -/
theorem run_settled {disk : Bytes} {ops : List Op} (run : Run step InLimits (sfsInit disk) ops s) :
    ∃ L fl, Settled s L fl := by
  refine run.invariant (I := fun s => ∃ L fl, Settled s L fl) (settled_init disk) fun t op holds limits => ?_
  obtain ⟨L, fl, settled⟩ := holds
  exact settled.next limits

end Sfs
