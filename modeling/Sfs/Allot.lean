import Sfs.Init
import Sfs.Lib.Handout

namespace Sfs

open Handout

/-- The calls on the bitmap, with the numbers that the pops returned. -/
inductive BitmapRun (s₀ : State) : List Handout → State → Prop
  | start : BitmapRun s₀ [] s₀
  | pop {es s} : BitmapRun s₀ es s → BitmapRun s₀ (es ++ [.popped (freeInodePop s).1]) (freeInodePop s).2
  | push {es s k} : BitmapRun s₀ es s → 3 ≤ k → k < INODE_BLK_SIZE →
    BitmapRun s₀ (es ++ [.pushed k]) (freeInodePush s k)

/-- The bits of the bitmap block. -/
def bitmap (s : State) (k : Nat) : Bool := bitAt (blockRead s INODE_BLK_SIZE) k

/-- A pop returns the least number whose bit is set and clears that bit. Where
none is set it returns 0 with an error and leaves the disk alone. -/
inductive PopLaw (s : State) : Nat × State → Prop
  | least {k s'} : k < INODE_BLK_SIZE → bitmap s k = true → (∀ j < k, bitmap s j = false) →
    (∀ j < 4096, bitmap s' j = (bitmap s j && j != k)) → s'.stores.sup = s.stores.sup →
    s'.stores.pool.cell = s.stores.pool.cell → s'.stores.data = s.stores.data → s'.errno = s.errno → PopLaw s (k, s')
  | empty {s'} : (∀ j < INODE_BLK_SIZE, bitmap s j = false) → s'.disk = s.disk → s'.errno = -ENOSPC → PopLaw s (0, s')

variable {s s' s₀ : State} {es : List Handout} {j k : Nat} {disk : Bytes}

theorem bitmap_eq (within : k < 4096) : bitmap s k = s.stores.pool.free k := by
  rw [stores_free, bitmap]
  simp [within]

theorem freeInodePop_law (s : State) : PopLaw s (freeInodePop s) := by
  have bound : INODE_BLK_SIZE = 1024 := rfl
  rcases freeInodePop_cases s with ⟨q, disk, run, upper, free, least, stores⟩ | ⟨run, empty⟩
  · rw [run] at stores ⊢
    refine .least (by omega) (by rw [bitmap_eq (by omega), free]) (fun j below => ?_) (fun j within => ?_)
      (by rw [stores, Stores.setPool_sup]) (by rw [stores, Stores.setPool_pool, Pool.take_cell])
      (by rw [stores, Stores.setPool_data]) rfl
    · rw [bitmap_eq (by omega), least j below]
    · rw [bitmap_eq within, bitmap_eq within, stores, Stores.setPool_pool, Bool.eq_iff_iff, Pool.take_free_iff]
      simp
  · rw [run]
    exact .empty (fun j within => by rw [bitmap_eq (by omega), empty j (by omega)]) rfl rfl

/-- A push sets one bit. -/
theorem freeInodePush_law (lower : 2 ≤ k) (upper : k < 4096) (within : j < 4096) :
    bitmap (freeInodePush s k) j = (bitmap s j || j == k) := by
  rw [bitmap_eq within, bitmap_eq within, stores_freeInodePush lower upper, Stores.setPool_pool, Bool.eq_iff_iff,
    Pool.give_free_iff]
  simp

namespace PopLaw

variable {r : Nat × State} (law : PopLaw s r)

include law

theorem leastFree : LeastFree INODE_BLK_SIZE (bitmap s) r.1 := by
  cases law with
  | least within free least _ _ _ _ _ => exact Or.inl ⟨within, free, least⟩
  | empty empty _ _ => exact Or.inr ⟨rfl, empty⟩

theorem bitmap_eq (zero : bitmap s 0 = false) (within : j < 4096) :
    bitmap r.2 j = Handout.apply (bitmap s) (.popped r.1) j := by
  cases law with
  | @least k s' _ _ _ cleared _ _ _ _ =>
    rw [cleared j within, Handout.apply]
    by_cases same : j = k
    · simp [same]
    · simp [same]
  | @empty s' _ same _ =>
    have same' : bitmap s' j = bitmap s j := by rw [bitmap, bitmap, blockRead, same]; rfl
    rw [same', Handout.apply]
    by_cases first : j = 0
    · rw [first, zero, Function.update_self]
    · rw [Function.update_of_ne first]

end PopLaw

namespace BitmapRun

variable (run : BitmapRun s₀ es s)

include run

/-- Number 0 is never given out. -/
theorem zero (start : bitmap s₀ 0 = false) : bitmap s 0 = false := by
  induction run with
  | start => exact start
  | @pop es s _ ih =>
    rw [(freeInodePop_law s).bitmap_eq ih (by decide), Handout.apply]
    by_cases first : 0 = (freeInodePop s).1
    · rw [← first, Function.update_self]
    · rw [Function.update_of_ne first, ih]
  | @push es s k _ lower upper ih =>
    rw [freeInodePush_law (by omega) (by rw [INODE_BLK_SIZE] at upper; omega) (by decide), ih, Bool.false_or,
      beq_eq_false_iff_ne]
    omega

/-- The bitmap follows the events. -/
theorem bitmap_after (start : bitmap s₀ 0 = false) (within : j < 4096) : bitmap s j = after (bitmap s₀) es j := by
  induction run with
  | start => rfl
  | @pop es s run ih =>
    rw [(freeInodePop_law s).bitmap_eq (run.zero start) within, after_concat]
    exact apply_congr ih
  | @push es s k _ lower upper ih =>
    rw [freeInodePush_law (by omega) (by rw [INODE_BLK_SIZE] at upper; omega) within, after_concat,
      ← apply_congr ih, Handout.apply]
    by_cases same : j = k
    · simp [same]
    · simp [same]

/-- Every pop takes the least number that is free by the events before it. -/
theorem taken (start : bitmap s₀ 0 = false) {pre post : List Handout} (split : es = pre ++ .popped k :: post) :
    LeastFree INODE_BLK_SIZE (after (bitmap s₀) pre) k := by
  have bound : INODE_BLK_SIZE = 1024 := rfl
  induction run generalizing post with
  | start => exact absurd split (by simp)
  | @pop es s run ih =>
    rcases List.eq_nil_or_concat post with rfl | ⟨post, e, rfl⟩
    · obtain ⟨rfl, last⟩ := List.append_inj' split rfl
      obtain rfl : (freeInodePop s).1 = k := by simpa using last
      have same : ∀ j < 1024, bitmap s j = after (bitmap s₀) es j := fun j within =>
        run.bitmap_after start (by omega)
      refine (freeInodePop_law s).leastFree.imp (fun found => ?_) fun none => ⟨none.1, fun j within => ?_⟩
      · obtain ⟨within, free, least⟩ := found
        exact ⟨within, by rw [← same _ (by omega), free], fun j below => by rw [← same j (by omega), least j below]⟩
      · rw [← same j (by omega), none.2 j within]
    · rw [List.concat_eq_append, ← List.cons_append, ← List.append_assoc] at split
      exact ih (List.append_inj' split rfl).1
  | @push es s k' run _ _ ih =>
    rcases List.eq_nil_or_concat post with rfl | ⟨post, e, rfl⟩
    · have last := (List.append_inj' split rfl).2
      simp at last
    · rw [List.concat_eq_append, ← List.cons_append, ← List.append_assoc] at split
      exact ih (List.append_inj' split rfl).1

end BitmapRun

theorem bitmap_sfsInit (within : j < 4096) : bitmap (sfsInit disk) j = decide (3 ≤ j) := by
  rw [bitmap_eq within, (sfsInit_initial disk).free]
  simp [within]

/-- The bitmap of inodes is a set of numbers from which the least is taken. In
a run of pops and pushes from the initial one, a number is not taken twice
unless it has been put back in between. -/
theorem bitmap_refines : (∀ s, PopLaw s (freeInodePop s)) ∧
    (∀ s k, 2 ≤ k → k < 4096 → ∀ j < 4096, bitmap (freeInodePush s k) j = (bitmap s j || j == k)) ∧
    ∀ disk es s, BitmapRun (sfsInit disk) es s → (∀ j < 4096, bitmap s j = after (3 ≤ ·) es j) ∧
      (∀ pre k post, es = pre ++ .popped k :: post → LeastFree INODE_BLK_SIZE (after (3 ≤ ·) pre) k) ∧
      ∀ pre k mid post, k ≠ 0 → es = pre ++ .popped k :: (mid ++ .popped k :: post) → .pushed k ∈ mid := by
  refine ⟨freeInodePop_law, fun s k lower upper j within => freeInodePush_law lower upper within, fun disk es s run => ?_⟩
  have start : bitmap (sfsInit disk) 0 = false := bitmap_sfsInit (by decide)
  have initial : ∀ (es : List Handout), ∀ j < 4096, after (bitmap (sfsInit disk)) es j = after (3 ≤ ·) es j := by
    intro es j within
    induction es using List.reverseRecOn with
    | nil => exact bitmap_sfsInit within
    | append_singleton es e ih =>
      rw [after_concat, after_concat]
      exact apply_congr ih
  have least : ∀ pre k post, es = pre ++ .popped k :: post → LeastFree INODE_BLK_SIZE (after (3 ≤ ·) pre) k := by
    intro pre k post split
    have bound : INODE_BLK_SIZE = 1024 := rfl
    refine (run.taken start split).imp (fun found => ?_) fun none => ⟨none.1, fun j within => ?_⟩
    · obtain ⟨within, free, least⟩ := found
      exact ⟨within, by rw [← initial _ _ (by omega), free], fun j below => by rw [← initial _ j (by omega), least j below]⟩
    · rw [← initial _ j (by omega), none.2 j within]
  exact ⟨fun j within => (run.bitmap_after start within).trans (initial es j within), least,
    fun pre k mid post positive split => pushed_between least positive split⟩

end Sfs
