import Mathlib.Data.Finset.Card
import Sfs.Lib.Chain
import Sfs.Quiet

namespace Sfs

/-- Sound calls led from `s` to `s'`. -/
structure Traced (s s' : State) : Prop where
  sound : ∀ c ∈ s'.trace, c ∈ s.trace ∨ c.Sound
  kept : Later s s'

/-- The listing buffers, the pending error and `ub` are as before. -/
structure Calm (s s' : State) : Prop extends Traced s s' where
  errno : s'.errno = s.errno
  d : s'.d = s.d
  f : s'.f = s.f
  ub : s'.ub = s.ub

/-- The static copy of the superblock is what is on the disk. -/
def Synced (s : State) : Prop := s.superBlockBuf.take 128 = s.stores.sup

variable {s s' s'' : State} {m x : Bytes} {a b : Nat} {v : Int} {fl : List Nat}

namespace Traced

theorem refl (s : State) : Traced s s := ⟨fun _ => Or.inl, fun _ => id⟩

theorem of_eq (same : s'.trace = s.trace) : Traced s s' :=
  ⟨fun _ member => Or.inl (same ▸ member), .of_eq same⟩

theorem trans (first : Traced s s') (second : Traced s' s'') : Traced s s'' where
  sound c member := by
    rcases second.sound c member with earlier | new
    · exact first.sound c earlier
    · exact Or.inr new
  kept := first.kept.trans second.kept

end Traced

namespace Calm

theorem refl (s : State) : Calm s s := ⟨.refl s, rfl, rfl, rfl, rfl⟩

theorem trans (first : Calm s s') (second : Calm s' s'') : Calm s s'' where
  toTraced := first.toTraced.trans second.toTraced
  errno := second.errno.trans first.errno
  d := second.d.trans first.d
  f := second.f.trans first.f
  ub := second.ub.trans first.ub

end Calm

theorem Quiet.calm (quiet : Quiet s s') : Calm s s' where
  sound := quiet.sound
  kept := quiet.kept
  errno := quiet.errno_eq
  d := quiet.d_eq
  f := quiet.f_eq
  ub := quiet.ub_eq

theorem Quiet.synced (quiet : Quiet s s') (synced : Synced s) (sup : s'.stores.sup = s.stores.sup) :
    Synced s' := by
  rw [Synced, quiet.superBlockBuf_eq, sup]
  exact synced

theorem getInt_putInt_self : getInt (putInt m a v) a = int32 v := by
  have bound : uint32 v < 4294967296 := by simp only [uint32]; omega
  have value : ((uint32 v : Nat) : Int) = v % 4294967296 := by simp only [uint32]; omega
  rw [getInt, putInt, Bytes.get32_put32_self, Nat.mod_eq_of_lt bound, value]
  exact Int.emod_bmod v 4294967296

theorem getInt_putInt_of_ne (apart : b + 4 ≤ a ∨ a + 4 ≤ b) : getInt (putInt m a v) b = getInt m b := by
  rw [getInt, putInt, Bytes.get32_put32_of_ne apart, getInt]

theorem getInt_take {n : Nat} (within : a + 4 ≤ n) : getInt (m.take n) a = getInt m a := by
  rw [getInt, Bytes.get32_take within, getInt]

theorem int32_int32 (v : Int) : int32 (int32 v) = int32 v := Int.bmod_bmod

theorem int32_getInt : int32 (getInt m a) = getInt m a := int32_int32 _

/-- `fl` is the list of free blocks. -/
structure FreeList (v : Stores) (fl : List Nat) : Prop where
  chain : Chain (fun b => freeBlockNext (v.data b)) (freeBlockHead v.sup) fl
  nodup : fl.Nodup
  area : ∀ b ∈ fl, 1025 ≤ b ∧ b < 32768

theorem FreeList.length_le {v : Stores} (list : FreeList v fl) : fl.length ≤ 32768 := by
  rw [← List.toFinset_card_of_nodup list.nodup, ← Finset.card_range 32768]
  refine Finset.card_le_card fun b member => ?_
  have := list.area b (List.mem_toFinset.mp member)
  exact Finset.mem_range.mpr (by omega)

theorem FreeList.congr {v w : Stores} (list : FreeList v fl) (sup : w.sup = v.sup)
    (data : ∀ b ∈ fl, w.data b = v.data b) : FreeList w fl where
  chain := by
    rw [sup]
    exact list.chain.congr fun b member => by rw [data b member]
  nodup := list.nodup
  area := list.area

/-- The superblock is the start of block 0. -/
theorem take_blockRead_zero : (blockRead s 0).take 128 = s.stores.sup := by
  have zero : (0 : Int) = ((0 : Nat) : Int) := rfl
  rw [zero, blockRead_nat _ (by omega)]
  exact Bytes.take_congr fun i hi => Bytes.take_apply_of_lt (by omega)

theorem superblockRead_eq : superblockRead s =
    { s with blockBuf := blockRead s 0, superBlockBuf := s.stores.sup } := by
  simp only [superblockRead, SUPERBLOCK_SIZE, take_blockRead_zero]

theorem blockWrite_eq (upper : b < 4194304) : blockWrite s b x =
    { s with disk := (blockWrite s b x).disk } := by
  rw [blockWrite_nat _ _ upper]

theorem superblockWrite_eq : superblockWrite s =
    { s with disk := (superblockWrite s).disk, blockBuf := (superblockWrite s).blockBuf } := by
  have zero : (0 : Int) = ((0 : Nat) : Int) := rfl
  have within : 0 < 4194304 := by decide
  simp only [superblockWrite, zero]
  rw [blockWrite_eq within]

@[simp] theorem superblockWrite_superBlockBuf : (superblockWrite s).superBlockBuf = s.superBlockBuf := by
  rw [superblockWrite_eq]

theorem stores_superblockWrite_with (x : Bytes) :
    (superblockWrite { s with superBlockBuf := x }).stores = s.stores.setSup (x.take 128) := by
  have same : ({ s with superBlockBuf := x } : State).stores = s.stores := stores_congr rfl
  rw [stores_superblockWrite, same]

theorem superblockWrite_synced : Synced (superblockWrite s) := by
  rw [Synced, stores_superblockWrite, Stores.setSup_sup, superblockWrite_superBlockBuf]

@[simp] theorem superblockWrite_trace : (superblockWrite s).trace = s.trace := by rw [superblockWrite_eq]

@[simp] theorem superblockWrite_errno : (superblockWrite s).errno = s.errno := by rw [superblockWrite_eq]

@[simp] theorem superblockWrite_d : (superblockWrite s).d = s.d := by rw [superblockWrite_eq]

@[simp] theorem superblockWrite_f : (superblockWrite s).f = s.f := by rw [superblockWrite_eq]

@[simp] theorem superblockWrite_ub : (superblockWrite s).ub = s.ub := by rw [superblockWrite_eq]

/-- The superblock with a new head and a new count. -/
def supWith (sup : Bytes) (head count : Int) : Bytes := putInt (putInt sup 4 count) 0 head

theorem head_supWith {head count : Int} : freeBlockHead ((supWith m head count).take 128) = int32 head := by
  rw [freeBlockHead, getInt_take (by omega), supWith, getInt_putInt_self]

theorem size_supWith {head count : Int} : freeBlockSize ((supWith m head count).take 128) = int32 count := by
  rw [freeBlockSize, getInt_take (by omega), supWith, getInt_putInt_of_ne (by omega), getInt_putInt_self]

theorem freeBlockUnlink_eq (b : Int) : freeBlockUnlink s b = superblockWrite { s with
    blockBuf := blockRead s b, superBlockBuf := supWith s.superBlockBuf (freeBlockNext (blockRead s b))
      (freeBlockSize s.superBlockBuf - 1) } := by
  rw [freeBlockUnlink, freeblockRead, supWith]

/-- The head of the list is taken off. -/
theorem freeBlockUnlink_spec (lower : 1025 ≤ b) (upper : b < 32768) :
    (freeBlockUnlink s b).stores = s.stores.setSup ((supWith s.superBlockBuf
      (freeBlockNext (s.stores.data b)) (freeBlockSize s.superBlockBuf - 1)).take 128) ∧
    Synced (freeBlockUnlink s b) ∧ (freeBlockUnlink s b).trace = s.trace ∧
      (freeBlockUnlink s b).errno = s.errno ∧ (freeBlockUnlink s b).d = s.d ∧
      (freeBlockUnlink s b).f = s.f ∧ (freeBlockUnlink s b).ub = s.ub := by
  refine ⟨?_, freeBlockUnlink_eq (s := s) b ▸ superblockWrite_synced, ?_⟩
  · have same : ∀ x y, ({ s with blockBuf := x, superBlockBuf := y } : State).stores = s.stores :=
      fun _ _ => stores_congr rfl
    rw [freeBlockUnlink_eq, stores_superblockWrite, same, blockRead_data lower (show b < 4194304 by omega)]
  · rw [freeBlockUnlink_eq, superblockWrite_trace, superblockWrite_errno, superblockWrite_d,
      superblockWrite_f, superblockWrite_ub]
    exact ⟨rfl, rfl, rfl, rfl, rfl⟩

theorem FreeList.head_pos {v : Stores} (list : FreeList v (b :: fl)) :
    freeBlockHead v.sup = b ∧ 1025 ≤ b ∧ b < 32768 := by
  have area := list.area b (List.mem_cons_self ..)
  exact ⟨list.chain.1, area.1, area.2⟩

/-- The stores after the head of the list has been taken off. -/
structure Unlinked (v w : Stores) (fl : List Nat) : Prop where
  list : FreeList w fl
  pool : w.pool = v.pool
  count : freeBlockSize w.sup = int32 (freeBlockSize v.sup - 1)

theorem FreeList.tail {v : Stores} (list : FreeList v (b :: fl)) :
    Unlinked v (v.setSup ((supWith v.sup (freeBlockNext (v.data b)) (freeBlockSize v.sup - 1)).take 128))
      fl where
  list := by
    refine ⟨?_, list.nodup.of_cons, fun c member => list.area c (List.mem_cons_of_mem _ member)⟩
    rw [Stores.setSup_sup, head_supWith, freeBlockNext, int32_getInt]
    exact list.chain.2
  pool := rfl
  count := size_supWith

variable {buff : Option Bytes}

theorem freeBlockPop_cons (list : FreeList s.stores (b :: fl)) : ∃ s', freeBlockPop s = (↑b, s') ∧
    Unlinked s.stores s'.stores fl ∧ s'.stores.data = s.stores.data ∧ Synced s' ∧ Calm s s' := by
  obtain ⟨head, lower, upper⟩ := list.head_pos
  have positive : (b : Int) > 0 := by omega
  simp only [freeBlockPop, superblockRead_eq, head, positive, if_true]
  obtain ⟨stores, synced, trace, errno, d, f, ub⟩ := freeBlockUnlink_spec
    (s := { s with blockBuf := blockRead s 0, superBlockBuf := s.stores.sup }) lower upper
  refine ⟨_, rfl, ?_, ?_, synced, ⟨?_, ?_⟩, errno, d, f, ub⟩
  · rw [stores_note, stores]
    exact list.tail
  · rw [stores_note, stores]
    rfl
  · intro c member
    rw [State.note, trace] at member
    rcases List.mem_cons.mp member with rfl | earlier
    · exact Or.inr trivial
    · exact Or.inl earlier
  · intro c member
    rw [State.note, trace]
    exact List.mem_cons_of_mem _ member

theorem freeBlockPop_nil (list : FreeList s.stores []) : ∃ s', freeBlockPop s = (-1, s') ∧
    s'.stores = s.stores ∧ Synced s' ∧ Traced s s' ∧ s'.ub = s.ub := by
  have head : freeBlockHead s.stores.sup = -1 := list.chain
  simp only [freeBlockPop, superblockRead_eq, head]
  refine ⟨_, rfl, rfl, ?_, ⟨fun c member => ?_, fun c member => List.mem_cons_of_mem _ member⟩, rfl⟩
  · exact Bytes.take_take
  · rcases List.mem_cons.mp member with rfl | earlier
    · exact Or.inr trivial
    · exact Or.inl earlier

/-- What an allocation leaves in the new block. -/
def blockImage (buff : Option Bytes) : Bytes := (buff.getD emptyBlk).take 512

theorem freeBlockAllocate_cons (buff : Option Bytes) (list : FreeList s.stores (b :: fl)) :
    ∃ s', freeBlockAllocate s buff = (↑b, s') ∧ Unlinked s.stores s'.stores fl ∧
      s'.stores.data = Function.update s.stores.data b (blockImage buff) ∧ Synced s' ∧ Calm s s' := by
  obtain ⟨head, lower, upper⟩ := list.head_pos
  have positive : (b : Int) > 0 := by omega
  simp only [freeBlockAllocate, superblockRead_eq, head, positive, if_true]
  obtain ⟨stores, synced, trace, errno, d, f, ub⟩ := freeBlockUnlink_spec
    (s := { s with blockBuf := blockRead s 0, superBlockBuf := s.stores.sup }) lower upper
  have written := blockWrite_eq (s := freeBlockUnlink
    { s with blockBuf := blockRead s 0, superBlockBuf := s.stores.sup } b) (b := b)
    (x := buff.getD emptyBlk) (by omega)
  have after := stores_blockWrite (s := freeBlockUnlink
    { s with blockBuf := blockRead s 0, superBlockBuf := s.stores.sup } b) (b := b)
    (x := buff.getD emptyBlk) lower (by omega)
  rw [stores] at after
  refine ⟨_, rfl, ?_, ?_, ?_, ⟨?_, ?_⟩, ?_, ?_, ?_, ?_⟩
  · rw [stores_note, after]
    have tail := list.tail
    refine ⟨tail.list.congr rfl fun c member => ?_, tail.pool, tail.count⟩
    have ne : c ≠ b := by
      rintro rfl
      exact (List.nodup_cons.mp list.nodup).1 member
    exact Function.update_of_ne ne ..
  · rw [stores_note, after]
    rfl
  · rw [Synced, stores_note, after, State.note, written, synced, stores]
    rfl
  · intro c member
    rw [State.note, written, trace] at member
    rcases List.mem_cons.mp member with rfl | earlier
    · exact Or.inr trivial
    · exact Or.inl earlier
  · intro c member
    rw [State.note, written, trace]
    exact List.mem_cons_of_mem _ member
  · rw [State.note, written, errno]
  · rw [State.note, written, d]
  · rw [State.note, written, f]
  · rw [State.note, written, ub]

theorem freeBlockAllocate_nil (buff : Option Bytes) (list : FreeList s.stores []) :
    ∃ s', freeBlockAllocate s buff = (-1, s') ∧ s'.stores = s.stores ∧ s'.f = s.f ∧ Synced s' ∧
      Traced s s' ∧ Call.freeBlockAllocate (-1) ∈ s'.trace ∧ s'.errno = -ENOSPC ∧ s'.ub = s.ub := by
  have head : freeBlockHead s.stores.sup = -1 := list.chain
  simp only [freeBlockAllocate, superblockRead_eq, head]
  refine ⟨_, rfl, rfl, rfl, ?_, ⟨fun c member => ?_, fun c member => List.mem_cons_of_mem _ member⟩,
    List.mem_cons_self .., rfl, rfl⟩
  · exact Bytes.take_take
  · rcases List.mem_cons.mp member with rfl | earlier
    · exact Or.inr trivial
    · exact Or.inl earlier

theorem freeBlockPush_eq {b : Int} {link : Bytes} {linked : State}
    (atLink : putInt (blockRead s 0) 0 (freeBlockHead s.stores.sup) = link)
    (written : blockWrite { s with blockBuf := link, superBlockBuf := s.stores.sup } b link = linked) :
    freeBlockPush s b = superblockWrite { linked with
      superBlockBuf := supWith linked.superBlockBuf b (freeBlockSize linked.superBlockBuf + 1) } := by
  subst written atLink
  rw [freeBlockPush, superblockRead_eq, freeblockWrite, supWith]

theorem stores_freeBlockPush (lower : 1025 ≤ b) (within : b < 4194304) : (freeBlockPush s b).stores =
    (s.stores.setData b ((putInt (blockRead s 0) 0 (freeBlockHead s.stores.sup)).take 512)).setSup
      ((supWith s.stores.sup b (freeBlockSize s.stores.sup + 1)).take 128) := by
  generalize atLink : putInt (blockRead s 0) 0 (freeBlockHead s.stores.sup) = link
  have written := blockWrite_eq (s := { s with blockBuf := link, superBlockBuf := s.stores.sup })
    (x := link) within
  have after : (blockWrite { s with blockBuf := link, superBlockBuf := s.stores.sup } b link).stores =
      s.stores.setData b (link.take 512) := by
    have same : ({ s with blockBuf := link, superBlockBuf := s.stores.sup } : State).stores = s.stores :=
      stores_congr rfl
    rw [stores_blockWrite lower within, same]
  have push := freeBlockPush_eq (b := b) atLink rfl
  generalize blockWrite { s with blockBuf := link, superBlockBuf := s.stores.sup } b link = linked
    at written after push
  have buf : linked.superBlockBuf = s.stores.sup := by rw [written]
  rw [push, stores_superblockWrite_with, after, buf]

theorem freeBlockPush_spec (list : FreeList s.stores fl) (lower : 1025 ≤ b) (upper : b < 32768)
    (new : b ∉ fl) : FreeList (freeBlockPush s b).stores (b :: fl) ∧
      (freeBlockPush s b).stores.pool = s.stores.pool ∧
      (∀ c, c ≠ b → (freeBlockPush s b).stores.data c = s.stores.data c) ∧
      freeBlockSize (freeBlockPush s b).stores.sup = int32 (freeBlockSize s.stores.sup + 1) ∧
      Synced (freeBlockPush s b) ∧ Calm s (freeBlockPush s b) := by
  have within : b < 4194304 := by omega
  have atHead : freeBlockNext ((putInt (blockRead s 0) 0 (freeBlockHead s.stores.sup)).take 512) =
      freeBlockHead s.stores.sup := by
    rw [freeBlockNext, getInt_take (by omega), getInt_putInt_self, freeBlockHead, int32_getInt]
  have stores := stores_freeBlockPush (s := s) lower within
  generalize atLink : putInt (blockRead s 0) 0 (freeBlockHead s.stores.sup) = link at atHead stores
  have written := blockWrite_eq (s := { s with blockBuf := link, superBlockBuf := s.stores.sup })
    (x := link) within
  have push := freeBlockPush_eq (b := b) atLink rfl
  generalize blockWrite { s with blockBuf := link, superBlockBuf := s.stores.sup } b link = linked
    at written push
  have buf : linked.superBlockBuf = s.stores.sup := by rw [written]
  rw [buf] at push
  refine ⟨⟨?_, ?_, ?_⟩, ?_, fun c ne => ?_, ?_, ?_, ⟨.of_eq ?_, ?_, ?_, ?_, ?_⟩⟩
  · rw [stores, Stores.setSup_sup, head_supWith, int32_of_mem (by omega) (by omega)]
    refine ⟨rfl, ?_⟩
    simp only [Stores.setSup_data, Stores.setData_data, Function.update_self, atHead]
    refine list.chain.congr fun c member => ?_
    rw [Function.update_of_ne (by rintro rfl; exact new member)]
  · exact List.nodup_cons.mpr ⟨new, list.nodup⟩
  · intro c member
    rcases List.mem_cons.mp member with rfl | old
    · exact ⟨lower, upper⟩
    · exact list.area c old
  · rw [stores, Stores.setSup_pool, Stores.setData_pool]
  · rw [stores, Stores.setSup_data, Stores.setData_data, Function.update_of_ne ne]
  · rw [stores]
    exact size_supWith
  · rw [push]
    exact superblockWrite_synced
  · rw [push, superblockWrite_trace, written]
  · rw [push, superblockWrite_errno, written]
  · rw [push, superblockWrite_d, written]
  · rw [push, superblockWrite_f, written]
  · rw [push, superblockWrite_ub, written]

end Sfs
