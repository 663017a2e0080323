import Sfs.Stores
import Sfs.Listing

namespace Sfs

/-- A dump or a direct block write that stays in the area meant for it. -/
def Call.Sound : Call → Prop
  | .inodeDump inum => 2 ≤ inum ∧ inum < 1024
  | .streamWrite blockNum => 1025 ≤ blockNum ∧ blockNum < 32768
  | _ => True

/-- Every call made by `s` has been made by `s'`. -/
def Later (s s' : State) : Prop := ∀ c ∈ s.trace, c ∈ s'.trace

theorem Later.trans {s s' s'' : State} (first : Later s s') (second : Later s' s'') : Later s s'' :=
  fun c member => second c (first c member)

theorem Later.of_eq {s s' : State} (same : s'.trace = s.trace) : Later s s' :=
  fun _ member => same ▸ member

/-- `s'` differs from `s` on the disk only, and sound calls led to it. -/
structure Quiet (s s' : State) : Prop where
  eq : s' = { s with disk := s'.disk, trace := s'.trace }
  sound : ∀ c ∈ s'.trace, c ∈ s.trace ∨ c.Sound
  kept : Later s s'

variable {s s' s'' : State} {k q : Nat} {x : Bytes}

namespace Quiet

theorem refl (s : State) : Quiet s s := ⟨rfl, fun _ => Or.inl, fun _ => id⟩

theorem trans (first : Quiet s s') (second : Quiet s' s'') : Quiet s s'' where
  eq := by rw [second.eq, first.eq]
  sound c member := by
    rcases second.sound c member with earlier | new
    · exact first.sound c earlier
    · exact Or.inr new
  kept := first.kept.trans second.kept

theorem errno_eq (quiet : Quiet s s') : s'.errno = s.errno := by rw [quiet.eq]

theorem ub_eq (quiet : Quiet s s') : s'.ub = s.ub := by rw [quiet.eq]

theorem d_eq (quiet : Quiet s s') : s'.d = s.d := by rw [quiet.eq]

theorem f_eq (quiet : Quiet s s') : s'.f = s.f := by rw [quiet.eq]

theorem superBlockBuf_eq (quiet : Quiet s s') : s'.superBlockBuf = s.superBlockBuf := by
  rw [quiet.eq]

end Quiet

theorem quiet_inodeDump (lower : 2 ≤ k) (upper : k < 1024) : Quiet s (inodeDump s k x) := by
  rw [inodeDump_eq (by omega)]
  refine ⟨rfl, fun c member => ?_, fun c member => List.mem_cons_of_mem _ member⟩
  rcases List.mem_cons.mp member with rfl | earlier
  · exact Or.inr ⟨by omega, by omega⟩
  · exact Or.inl earlier

theorem freeInodePush_eq (lower : 2 ≤ q) (upper : q < 4096) :
    freeInodePush s q = { s with disk := (freeInodePush s q).disk } := by
  have inside : ¬ q / 8 ≥ BLOCK_SIZE := by simp only [BLOCK_SIZE]; omega
  simp only [freeInodePush, show ¬ q < 2 by omega, if_false, inside, decide_false, State.fault,
    Bool.or_false]
  rw [blockWrite_nat _ _ (by decide)]

theorem quiet_freeInodePush (lower : 2 ≤ q) (upper : q < 4096) : Quiet s (freeInodePush s q) := by
  rw [freeInodePush_eq lower upper]
  exact ⟨rfl, fun _ => Or.inl, fun _ => id⟩

/-! The trace only grows, also where a pop fails. -/

theorem blockWrite_trace (s : State) (b : Int) (x : Bytes) : (blockWrite s b x).trace = s.trace := by
  unfold blockWrite
  split <;> rfl

theorem later_inodeDump (s : State) (inum : Int) (x : Bytes) : Later s (inodeDump s inum x) := by
  intro c member
  simp only [inodeDump]
  split
  · exact List.mem_cons_of_mem _ member
  · rw [blockWrite_trace]; exact List.mem_cons_of_mem _ member

theorem later_freeInodePop (s : State) : Later s (freeInodePop s).2 := by
  intro c member
  unfold freeInodePop
  split
  · simp only [State.note, blockWrite_trace]; exact List.mem_cons_of_mem _ member
  · exact List.mem_cons_of_mem _ member

theorem freeInodePush_trace (s : State) (q : Nat) : (freeInodePush s q).trace = s.trace := by
  simp only [freeInodePush]
  split
  · rfl
  · simp only [State.fault, blockWrite_trace]

theorem later_freeInodePush (s : State) (q : Nat) : Later s (freeInodePush s q) :=
  .of_eq (freeInodePush_trace s q)

variable {buf lv1 inode : Bytes} {ptrEnd cacheEnd ptr i j n : Nat}

/-- A relation between states that the calls of the listing functions are in. -/
structure Steps (R : State → State → Prop) : Prop where
  refl : ∀ s, R s s
  trans : ∀ {s s' s''}, R s s' → R s' s'' → R s s''
  dump : ∀ s inum x, R s (inodeDump s inum x)
  pop : ∀ s, R s (freeInodePop s).2
  push : ∀ s q, R s (freeInodePush s q)

/-- A new index page is filled like one that had no leaf pages. -/
theorem newLeaves_eq (new : cacheEnd ≤ ptr) :
    newLeaves buf ptrEnd s lv1 ptr j n = setLeaves buf ptrEnd cacheEnd s lv1 ptr j n := by
  induction n generalizing s lv1 ptr j with
  | zero => rfl
  | succ n ih =>
    simp only [newLeaves, setLeaves, ge_iff_le, new, if_true]
    split <;> exact ih (by omega)

namespace Steps

variable {R : State → State → Prop} (steps : Steps R)

include steps

theorem setPages : R s (setPages buf ptrEnd cacheEnd s inode ptr i n).1 := by
  induction n generalizing s inode ptr i with
  | zero => exact steps.refl s
  | succ n ih =>
    simp only [Sfs.setPages]
    split
    · split
      · exact steps.trans (steps.push _ _) ih
      · exact ih
    · split
      · exact steps.trans (steps.pop _) (steps.trans (steps.dump _ _ _) ih)
      · exact steps.trans (steps.dump _ _ _) ih

theorem releaseLeaves : R s (releaseLeaves cacheEnd s lv1 ptr j n) := by
  induction n generalizing s ptr j with
  | zero => exact steps.refl s
  | succ n ih =>
    simp only [Sfs.releaseLeaves]
    split
    · exact steps.trans (steps.push _ _) ih
    · exact ih

theorem setLeaves : R s (setLeaves buf ptrEnd cacheEnd s lv1 ptr j n).1 := by
  induction n generalizing s lv1 ptr j with
  | zero => exact steps.refl s
  | succ n ih =>
    simp only [Sfs.setLeaves]
    split
    · split
      · exact steps.trans (steps.pop _) (steps.trans (steps.dump _ _ _) ih)
      · exact steps.trans (steps.dump _ _ _) ih
    · exact ih

theorem setIndex : R s (setIndex buf ptrEnd cacheEnd s inode ptr i n).1 := by
  induction n generalizing s inode ptr i with
  | zero => exact steps.refl s
  | succ n ih =>
    simp only [Sfs.setIndex]
    split
    · split
      · exact steps.trans steps.releaseLeaves (steps.trans (steps.push _ _) ih)
      · exact ih
    · split
      next fresh =>
        rw [newLeaves_eq fresh]
        exact steps.trans (steps.pop _) (steps.trans steps.setLeaves (steps.trans (steps.dump _ _ _) ih))
      next => exact steps.trans steps.setLeaves (steps.trans (steps.dump _ _ _) ih)

theorem listingSet {entry : Nat} {inum : Nat} {newsize : Int} : R s (listingSet entry buf s inum newsize) := by
  simp only [Sfs.listingSet]
  refine steps.trans ?_ (steps.dump _ _ _)
  exact steps.trans steps.setPages steps.setIndex

end Steps

theorem later_steps : Steps Later where
  refl _ _ := id
  trans := Later.trans
  dump := later_inodeDump
  pop := later_freeInodePop
  push := later_freeInodePush

/-- No call is forgotten, and an error that is pending stays. -/
structure Onward (s s' : State) : Prop where
  later : Later s s'
  failed : s.errno < 0 → s'.errno < 0

theorem blockWrite_errno (s : State) (b : Int) (x : Bytes) : (blockWrite s b x).errno = s.errno := by
  unfold blockWrite
  split <;> rfl

theorem inodeDump_errno (s : State) (inum : Int) (x : Bytes) : (inodeDump s inum x).errno = s.errno := by
  simp only [inodeDump]
  split
  · rfl
  · exact blockWrite_errno _ _ _

theorem freeInodePush_errno (s : State) (q : Nat) : (freeInodePush s q).errno = s.errno := by
  simp only [freeInodePush]
  split
  · rfl
  · simp only [State.fault, blockWrite_errno]

theorem onward_steps : Steps Onward where
  refl _ := ⟨fun _ => id, id⟩
  trans first second := ⟨first.later.trans second.later, fun failed => second.failed (first.failed failed)⟩
  dump s inum x := ⟨later_inodeDump s inum x, fun failed => by rwa [inodeDump_errno]⟩
  pop s := by
    refine ⟨later_freeInodePop s, fun failed => ?_⟩
    rw [freeInodePop]
    split
    · simp only [State.note, blockWrite_errno]
      exact failed
    · exact (by decide : -ENOSPC < 0)
  push s q := ⟨later_freeInodePush s q, fun failed => by rwa [freeInodePush_errno]⟩

theorem Onward.trans {s s' s'' : State} (first : Onward s s') (second : Onward s' s'') : Onward s s'' :=
  onward_steps.trans first second

theorem later_listingSet {entry : Nat} {inum : Nat} {newsize : Int} :
    Later s (listingSet entry buf s inum newsize) := later_steps.listingSet

end Sfs
