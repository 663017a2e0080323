import Sfs.Access
import Sfs.Serve

namespace Sfs

/-- The tail of a failed `sfs_write`: at most one inode has been taken. -/
structure Spilled (t s' : State) : Prop where
  stores : s'.stores = t.stores ∨ ∃ q < 1024, t.stores.pool.free q = true ∧
    s'.stores = t.stores.setPool (t.stores.pool.take q)
  errno : s'.errno = 0
  synced : Synced t → Synced s'
  traced : Traced t s'

/-- The result and the state after `sfs_write` to entry `c` of directory `m`. -/
inductive WriteOutcome (L : Set Nat) (s : State) (m : Nat) (c : List UInt8) (fl : List Nat) (buf : Bytes)
    (offset len : Nat) : Int → State → Prop
  | absent {s'} : child s.stores.pool m c = none → Glance s s' → WriteOutcome L s m c fl buf offset len (-ENOENT) s'
  | written {k e taken fl' s₁ s'} : child s.stores.pool m c = some k → isdir (s.stores.pool.cell k) = 0 →
    Glance s s₁ → Stored L s₁ s' k buf offset len e fl taken fl' → e = max (offset / 512) (min (lastBlock offset len) 8344) →
    s'.errno = 0 → WriteOutcome L s m c fl buf offset len len s'
  | short {k e taken s₁ t s'} : child s.stores.pool m c = some k → isdir (s.stores.pool.cell k) = 0 →
    Glance s s₁ → Stored L s₁ t k buf offset len e fl taken [] → .freeBlockAllocate (-1) ∈ s'.trace → t.errno = 0 →
    Spilled t s' → WriteOutcome L s m c fl buf offset len (-ENOSPC) s'

/-- The result and the state after `sfs_truncate` of entry `c` of directory `m`. -/
inductive TruncateOutcome (L : Set Nat) (s : State) (m : Nat) (c : List UInt8) (fl : List Nat) (n : Nat) :
    Int → State → Prop
  | absent {s'} : child s.stores.pool m c = none → Glance s s' → TruncateOutcome L s m c fl n (-ENOENT) s'
  | shrunk {k s'} : child s.stores.pool m c = some k → isdir (s.stores.pool.cell k) = 0 →
    n ≤ size (s.stores.pool.cell k) → blocksOf s'.stores.pool k = (blocksOf s.stores.pool k).take n →
    FileStep L s s' k n fl (((blocksOf s.stores.pool k).drop n).reverse ++ fl) → s'.errno = 0 →
    TruncateOutcome L s m c fl n 0 s'
  | grown {k fl' s'} {taken : List Nat} : child s.stores.pool m c = some k → isdir (s.stores.pool.cell k) = 0 →
    n = size (s.stores.pool.cell k) + taken.length → fl = taken ++ fl' →
    blocksOf s'.stores.pool k = blocksOf s.stores.pool k ++ taken → FileStep L s s' k n fl fl' → s'.errno = 0 →
    TruncateOutcome L s m c fl n 0 s'

variable {L : Set Nat} {s s₁ s' t : State} {fl : List Nat} {k m n offset len : Nat} {c : List UInt8} {cs : Path}
  {path : CPath} {buf : Bytes} {r : Int}

theorem traced_errnoPop (s : State) : Traced s (errnoPop s).2 := .of_eq rfl

theorem synced_errnoPop (synced : Synced s) : Synced (errnoPop s).2 := synced_setErrno synced 0

theorem errnoPop_errno (s : State) : (errnoPop s).2.errno = 0 := rfl

/-- With no block free the two allocators of the error branch take one inode at most. -/
theorem afterWrite_short (list : FreeList t.stores []) (negative : r < 0) :
    (afterWrite (r, t)).1 = r ∧ Spilled t (afterWrite (r, t)).2 := by
  rw [afterWrite, if_pos negative]
  refine ⟨rfl, ?_⟩
  have popped : ((freeInodePop t).2.stores = t.stores ∨ ∃ q < 1024, t.stores.pool.free q = true ∧
      (freeInodePop t).2.stores = t.stores.setPool (t.stores.pool.take q)) ∧
      (Synced t → Synced (freeInodePop t).2) ∧ Traced t (freeInodePop t).2 := by
    rcases freeInodePop_cases t with ⟨q, disk, run, upper, free, _, stores⟩ | ⟨run, _⟩
    · refine ⟨Or.inr ⟨q, upper, free, stores⟩, fun synced => ?_, ?_⟩
      · rw [Synced, stores, Stores.setPool_sup, run]
        exact synced
      · rw [run]
        refine ⟨fun c member => ?_, fun c member => List.mem_cons_of_mem _ member⟩
        exact (List.mem_cons.mp member).elim (fun new => Or.inr (new ▸ trivial)) Or.inl
    · rw [run]
      have same : ({ t with errno := -ENOSPC, trace := .freeInodePop 0 :: t.trace } : State).stores = t.stores :=
        stores_congr rfl
      refine ⟨Or.inl same, fun synced => ?_, fun c member => ?_, fun c member => List.mem_cons_of_mem _ member⟩
      · rw [Synced, same]
        exact synced
      · exact (List.mem_cons.mp member).elim (fun new => Or.inr (new ▸ trivial)) Or.inl
  obtain ⟨stores, synced, traced⟩ := popped
  generalize (freeInodePop t).2 = t₁ at *
  have stores₁ := stores_errnoPop t₁
  have synced₁ := fun h => synced_errnoPop (synced h)
  have traced₁ := traced.trans (traced_errnoPop t₁)
  generalize (errnoPop t₁).2 = t₂ at *
  have list₂ : FreeList t₂.stores [] := by
    rw [stores₁]
    rcases stores with same | ⟨q, _, _, same⟩
    · rwa [same]
    · rw [same]
      exact list.congr (Stores.setPool_sup ..) fun _ _ => by rw [Stores.setPool_data]
  obtain ⟨t₃, run, stores₃, synced₃, traced₃, _⟩ := freeBlockPop_nil list₂
  simp only [run]
  refine ⟨?_, errnoPop_errno t₃, fun _ => synced_errnoPop synced₃,
    traced₁.trans (traced₃.trans (traced_errnoPop t₃))⟩
  rw [stores_errnoPop, stores₃, stores₁]
  exact stores

theorem buffers_trace (s : State) (x y : Bytes) :
    ({ s with blockBuf := x, superBlockBuf := y } : State).trace = s.trace := rfl

theorem superblockRead_trace (s : State) : (superblockRead s).trace = s.trace := buffers_trace s _ _

theorem freeBlockUnlink_trace (s : State) (b : Int) : (freeBlockUnlink s b).trace = s.trace := by
  have same := congrArg State.trace (freeBlockUnlink_eq (s := s) b)
  exact same.trans (superblockWrite_trace.trans (buffers_trace s _ _))

theorem later_note (s : State) (call : Call) : Later s (s.note call) := fun _ member => List.mem_cons_of_mem _ member

theorem errnoPush_trace (s : State) (err : Int) : (errnoPush s err).trace = s.trace := rfl

theorem errnoPop_trace (s : State) : (errnoPop s).2.trace = s.trace := rfl

theorem later_freeBlockPop (s : State) : Later s (freeBlockPop s).2 := by
  unfold freeBlockPop
  refine Later.trans (.of_eq ?_) (later_note _ _)
  split
  · rw [freeBlockUnlink_trace, superblockRead_trace]
  · rw [errnoPush_trace, superblockRead_trace]

theorem later_afterWrite (r : Int) (t : State) : Later t (afterWrite (r, t)).2 := by
  rw [afterWrite]
  split
  · have first := (later_freeInodePop t).trans (.of_eq (errnoPop_trace _))
    have second := (later_freeBlockPop (errnoPop (freeInodePop t).2).2).trans (.of_eq (errnoPop_trace _))
    exact first.trans second
  · exact fun _ => id

section

variable (good : Good s L fl) (live : m ∈ L) (step : child s.stores.pool m c = some k)
  (file : isdir (s.stores.pool.cell k) = 0) (found : (pathToInum s path).1.inum = k)

include good live step file found

/-- The write itself, and what follows it when it fails. -/
theorem sfsWrite_steps (size offset : Nat) (fits : WriteFits (Sfs.size (s.stores.pool.cell k)) size offset)
    (room : Room s.stores.pool (growNeed s k (writeRows (Sfs.size (s.stores.pool.cell k)) (spareBlocks s)
      (int32 offset).toNat (int32 size).toNat)) (sfsWrite s path buf size offset).2) :
    ∃ s₁ t e taken fl', Glance s s₁ ∧ Stored L s₁ t k buf (int32 offset).toNat (int32 size).toNat e fl taken fl' ∧
      nlink (t.stores.pool.cell k) = nlink (s.stores.pool.cell k) ∧ t.errno = 0 ∧
      (e = max ((int32 offset).toNat / 512) (min (lastBlock (int32 offset).toNat (int32 size).toNat) 8344) ∧
          sfsWrite s path buf size offset = (((int32 size).toNat : Int), t) ∨
        fl' = [] ∧ e < min (lastBlock (int32 offset).toNat (int32 size).toNat) 8344 ∧ Sfs.size (s.stores.pool.cell k) ≤ e ∧
          .freeBlockAllocate (-1) ∈ t.trace ∧ sfsWrite s path buf size offset = afterWrite (-ENOSPC, t)) := by
  obtain ⟨sizePos, offsetPos, small, noHole⟩ := fits
  obtain ⟨live', _⟩ := good.child_pos live step
  have glance := pathToInum_glance s path
  generalize after : (pathToInum s path).2 = s₁ at glance
  have same := glance.stores_eq
  have good₁ := good.glance glance
  have file₁ : isdir (s₁.stores.pool.cell k) = 0 := by rw [same]; exact file
  rw [sfsWrite_eq found after] at room ⊢
  obtain ⟨offset, atOffset⟩ := Int.eq_ofNat_of_zero_le offsetPos
  obtain ⟨len, atLen⟩ := Int.eq_ofNat_of_zero_le sizePos
  rw [atOffset, atLen] at room ⊢ small
  rw [atOffset] at noHole
  simp only [Int.toNat_natCast] at noHole room ⊢
  have spare : spareBlocks s = fl.length := by rw [spareBlocks, good.count, Int.toNat_natCast]
  rw [spare] at room
  generalize written : fstreamWrite s₁ k buf len offset = o at *
  have pops : Pops s₁.stores.pool (blknumSize * writeRows (Sfs.size (s₁.stores.pool.cell k)) fl.length offset len)
      (endOf (s₁.stores.pool.cell k)) o.2 := by
    rw [same, endOf_file file]
    exact Pops.of_later room (later_afterWrite o.1 o.2)
  rw [← written] at pops
  obtain ⟨e, taken, fl', stored, links, errno, final⟩ := fstreamWrite_spec buf good₁.owned live' file₁ good₁.list good₁.blocks
    (by omega) (by rw [same]; exact noHole) pops
  rw [written] at stored links errno final
  rw [same] at final links
  have result := fun clear => final.imp_left fun done => And.intro done.1 (done.2 clear)
  obtain ⟨r, t⟩ := o
  refine ⟨s₁, t, e, taken, fl', glance, stored, links, errno, ?_⟩
  rcases result good₁.errno with ⟨atEnd, rfl⟩ | ⟨rfl, before, past, failed, rfl⟩
  · exact Or.inl ⟨atEnd, if_neg (by omega)⟩
  · exact Or.inr ⟨rfl, before, past, failed, rfl⟩

theorem sfsWrite_outcome (size offset : Nat)
    (fits : WriteFits (Sfs.size (s.stores.pool.cell k)) size offset)
    (room : Room s.stores.pool (growNeed s k (writeRows (Sfs.size (s.stores.pool.cell k)) (spareBlocks s)
      (int32 offset).toNat (int32 size).toNat)) (sfsWrite s path buf size offset).2) :
    WriteOutcome L s m c fl buf (int32 offset).toNat (int32 size).toNat (sfsWrite s path buf size offset).1
      (sfsWrite s path buf size offset).2 := by
  obtain ⟨s₁, t, e, taken, fl', glance, stored, _, errno, final⟩ := sfsWrite_steps good live step file found size offset
    fits room
  rcases final with ⟨atEnd, run⟩ | ⟨rfl, _, _, failed, run⟩
  · rw [run]
    exact .written step file glance stored atEnd errno
  · obtain ⟨kept, spilled⟩ := afterWrite_short (r := -ENOSPC) stored.list (by decide)
    have later := later_afterWrite (-ENOSPC) t
    rw [run, kept]
    exact .short step file glance stored (later _ failed) errno spilled

/-- The file gets as many blocks as the new size asks for. -/
theorem sfsTruncate_steps (offset : Nat) (fits : TruncateFits (size (s.stores.pool.cell k)) (spareBlocks s) offset)
    (room : Room s.stores.pool (growNeed s k (newBSize offset).toNat) (sfsTruncate s path offset).2) :
    ∃ s₁ f, Glance s s₁ ∧ (newBSize offset).toNat ≤ 8344 ∧ (sfsTruncate s path offset).1 = 0 ∧
      Truncated L s₁ (sfsTruncate s path offset).2 k (newBSize offset).toNat f fl ∧
      nlink ((sfsTruncate s path offset).2.stores.pool.cell k) = nlink (s.stores.pool.cell k) := by
  obtain ⟨positive, fits⟩ := fits
  obtain ⟨live', lower, upper, _⟩ := good.child_pos live step
  have glance := pathToInum_glance s path
  generalize after : (pathToInum s path).2 = s₁ at glance
  have same := glance.stores_eq
  have good₁ := good.glance glance
  have file₁ : isdir (s₁.stores.pool.cell k) = 0 := by rw [same]; exact file
  obtain ⟨n, atN⟩ := Int.eq_ofNat_of_zero_le positive
  rw [sfsTruncate_eq found after (by omega) atN] at room ⊢
  rw [atN, Int.toNat_natCast] at fits room ⊢
  have fitsK := good.owned.fits k live'
  have limit : n ≤ 8344 := by
    rw [endOf_file file, blknumSize] at fitsK
    omega
  generalize run : truncateTo s₁ k n (int32 offset) = s' at room ⊢
  have blocks := good₁.blocks.nodup k live' file₁
  obtain ⟨f, trunc, _, links⟩ := truncateTo_spec good₁.owned live' file₁ good₁.list
    (blocks.sublist ((List.drop_sublist _ _).append_right _))
    (fun b member => good₁.blocks.area k live' file₁ b (List.mem_of_mem_drop member)) limit run
    (by rw [endOf_file file₁, same]; exact room)
  rw [same] at links
  exact ⟨s₁, f, glance, limit, rfl, trunc, links⟩

theorem sfsTruncate_outcome (offset : Nat) (fits : TruncateFits (size (s.stores.pool.cell k)) (spareBlocks s) offset)
    (room : Room s.stores.pool (growNeed s k (newBSize offset).toNat) (sfsTruncate s path offset).2) :
    TruncateOutcome L s m c fl (newBSize offset).toNat (sfsTruncate s path offset).1 (sfsTruncate s path offset).2 := by
  have live' := (good.child_pos live step).1
  obtain ⟨s₁, f, glance, limit, zero, trunc, _⟩ := sfsTruncate_steps good live step file found offset fits room
  obtain ⟨_, fits⟩ := fits
  have same := glance.stores_eq
  have good₁ := good.glance glance
  have file₁ : isdir (s₁.stores.pool.cell k) = 0 := by rw [same]; exact file
  have spare : spareBlocks s = fl.length := by rw [spareBlocks, good.count, Int.toNat_natCast]
  rw [spare] at fits
  have fitsK := good.owned.fits k live'
  rw [zero]
  generalize (newBSize offset).toNat = n at *
  generalize (sfsTruncate s path offset).2 = s' at *
  have clear := trunc.errno
  rw [same] at clear
  by_cases shrinks : n ≤ size (s.stores.pool.cell k)
  · obtain ⟨kept, step'⟩ := trunc.shrink file₁ (by rw [same]; exact fitsK) (by rw [same]; exact shrinks)
    rw [same] at kept step'
    exact .shrunk step file shrinks kept (step'.of_glance glance)
      ((clear (by omega)).trans good₁.errno)
  · obtain ⟨aligned, _, enough⟩ := fits.resolve_left shrinks
    have split := List.take_append_drop (n - size (s.stores.pool.cell k)) fl
    have taken : (fl.take (n - size (s.stores.pool.cell k))).length = n - size (s.stores.pool.cell k) := by
      rw [List.length_take]
      omega
    rw [← split] at trunc
    obtain ⟨grown, step'⟩ := trunc.grow file₁ (by rw [same]; exact fitsK) limit (by rw [same]; exact aligned)
      (by rw [same, taken]; omega)
    rw [split] at step'
    rw [same] at grown
    exact .grown step file (by rw [taken]; omega) split.symm grown (step'.of_glance glance)
      ((clear (by omega)).trans good₁.errno)

end

end Sfs
