import Sfs.FreeList
import Sfs.Stream

namespace Sfs

/-- Entry `i` of the buffer `f`. -/
def fNo (f : Bytes) (i : Nat) : Nat := f.get32 (blknumSize * i)

/-- The first `g` entries of `f` are distinct data blocks, none of them free. -/
structure Held (f : Bytes) (g : Nat) (fl : List Nat) : Prop where
  area : ∀ j < g, 1025 ≤ fNo f j ∧ fNo f j < 32768
  off : ∀ j < g, fNo f j ∉ fl
  inj : ∀ i < g, ∀ j < g, fNo f i = fNo f j → i = j

variable {s t t' : State} {f f' blkbuf : Bytes} {fl fl' taken : List Nat} {b c b₀ bSize bEnd e g i j n o ptr : Nat}

theorem fGet_nat (small : fNo s.f i < 2147483648) : fGet s i = fNo s.f i := by
  rw [fGet, Int.toNat_natCast]
  exact int32_of_mem (by omega) (by exact_mod_cast small)

theorem fGet_note (call : Call) (i : Int) : fGet (s.note call) i = fGet s i := rfl

theorem fBad_nat (within : i < 8344) : fBad i = false := by
  simp [fBad, FENTRY_MAX_SIZE]
  omega

/-- The read loop fetches the blocks below `bSize`. -/
theorem readBlocks_spec (i n ptr : Nat) (blkbuf : Bytes) (limit : bSize ≤ 8344) (count : i + n = bEnd) :
    (readBlocks s bSize bEnd i blkbuf ptr n).2 = s ∧ ∀ o, (readBlocks s bSize bEnd i blkbuf ptr n).1 o =
      if ptr ≤ o ∧ o < ptr + 512 * n ∧ i + (o - ptr) / 512 < bSize
      then blockRead s (fGet s (i + (o - ptr) / 512 : Nat)) ((o - ptr) % 512) else blkbuf o := by
  induction n generalizing i blkbuf ptr with
  | zero => exact ⟨rfl, fun o => by rw [readBlocks, if_neg (by omega)]⟩
  | succ n ih =>
    by_cases inside : i < bSize
    · have cond : (i : Int) < bSize ∧ (i : Int) < bEnd := by omega
      have next : (i : Int) + 1 = ((i + 1 : Nat) : Int) := by omega
      rw [readBlocks, if_pos cond, fBad_nat (by omega), fault_false, next, BLOCK_SIZE]
      obtain ⟨state, bytes⟩ := ih (i + 1) (ptr + 512)
        (blkbuf.copy ptr (blockRead s (fGet s i)) 0 512) (by omega)
      refine ⟨state, fun o => ?_⟩
      rw [bytes]
      by_cases here : ptr ≤ o ∧ o < ptr + 512
      · have index : i + (o - ptr) / 512 = i := by omega
        have place : 0 + (o - ptr) = (o - ptr) % 512 := by omega
        rw [if_neg (by omega), if_pos (by omega), Bytes.copy_apply_of_mem here.1 here.2, index, place]
      · rw [Bytes.copy_apply_of_not_mem (by omega)]
        by_cases later : ptr + 512 ≤ o ∧ o < ptr + 512 + 512 * n ∧ i + 1 + (o - (ptr + 512)) / 512 < bSize
        · have index : i + 1 + (o - (ptr + 512)) / 512 = i + (o - ptr) / 512 := by omega
          have place : (o - (ptr + 512)) % 512 = (o - ptr) % 512 := by omega
          rw [if_pos later, if_pos (by omega), index, place]
        · rw [if_neg later, if_neg (by omega)]
    · have cond : ¬ ((i : Int) < bSize ∧ (i : Int) < bEnd) := by omega
      rw [readBlocks, if_neg cond]
      exact ⟨rfl, fun o => by rw [if_neg (by omega)]⟩

/-- What block `j` is given, when `blkbuf` starts at block `b₀`. -/
def pageAt (blkbuf : Bytes) (b₀ j : Nat) : Bytes := blkbuf.window (512 * (j - b₀)) 512

/-- Blocks `i` to `e` have been written, `taken` from the free list. The list
had `g` blocks before. -/
structure Written (t t' : State) (blkbuf : Bytes) (b₀ g i e : Nat) (fl taken fl' : List Nat) : Prop where
  list : FreeList t'.stores fl'
  split : fl = taken ++ fl'
  rows : g + taken.length = max e g
  pool : t'.stores.pool = t.stores.pool
  kept : ∀ j < g, fNo t'.f j = fNo t.f j
  new : ∀ j (within : j < taken.length), fNo t'.f (g + j) = taken[j]
  held : Held t'.f (max e g) fl'
  page : ∀ j, i ≤ j → j < e → t'.stores.data (fNo t'.f j) = pageAt blkbuf b₀ j
  frame : ∀ b, (∀ j, i ≤ j → j < e → fNo t'.f j ≠ b) → t'.stores.data b = t.stores.data b
  count : freeBlockSize t.stores.sup = fl.length → freeBlockSize t'.stores.sup = fl'.length
  synced : Synced t → Synced t'
  traced : Traced t t'
  ub : t'.ub = t.ub

namespace Written

theorem refl (list : FreeList t.stores fl) (held : Held t.f g fl) (stop : e ≤ i) (below : e ≤ g) :
    Written t t blkbuf b₀ g i e fl [] fl where
  list := list
  split := rfl
  rows := by simp; omega
  pool := rfl
  kept _ _ := rfl
  new j within := absurd within (Nat.not_lt_zero j)
  held := by rwa [Nat.max_eq_right below]
  page _ _ _ := by omega
  frame _ _ := rfl
  count := id
  synced := id
  traced := .refl t
  ub := rfl

end Written

theorem Held.cons (held : Held f g (b :: fl)) (list : FreeList s.stores (b :: fl))
    (kept : ∀ j < g, fNo f' j = fNo f j) (new : fNo f' g = b) : Held f' (g + 1) fl where
  area j hj := by
    by_cases last : j = g
    · rw [last, new]
      exact list.area b (List.mem_cons_self ..)
    · rw [kept j (by omega)]
      exact held.area j (by omega)
  off j hj member := by
    by_cases last : j = g
    · rw [last, new] at member
      exact (List.nodup_cons.mp list.nodup).1 member
    · rw [kept j (by omega)] at member
      exact held.off j (by omega) (List.mem_cons_of_mem _ member)
  inj i hi j hj same := by
    have fresh : ∀ i < g, fNo f' i ≠ b := fun i hi same =>
      held.off i hi (by rw [← kept i hi, same]; exact List.mem_cons_self ..)
    by_cases iLast : i = g
    · by_cases jLast : j = g
      · rw [iLast, jLast]
      · rw [iLast, new] at same
        exact absurd same.symm (fresh j (by omega))
    · by_cases jLast : j = g
      · rw [jLast, new] at same
        exact absurd same (fresh i (by omega))
      · rw [kept i (by omega), kept j (by omega)] at same
        exact held.inj i (by omega) j (by omega) same

theorem fSet_nat (within : i < 8344) (small : b < 4294967296) :
    fSet s i b = { s with f := s.f.put32 (blknumSize * i) b } := by
  have value : uint32 b = b := by simp only [uint32]; omega
  rw [fSet, fBad_nat within, if_neg Bool.false_ne_true, Int.toNat_natCast, value]

theorem fNo_put32_self (small : b < 4294967296) : fNo (f.put32 (blknumSize * i) b) i = b := by
  rw [fNo, Bytes.get32_put32_self, Nat.mod_eq_of_lt small]

theorem fNo_put32_of_ne (ne : j ≠ i) : fNo (f.put32 (blknumSize * i) b) j = fNo f j :=
  Bytes.get32_put32_of_ne (by simp only [blknumSize]; omega)

/-- Block `i` is written first, then the others. -/
theorem Written.page_frame {g₁ : Nat} (rest : Written t t' blkbuf b₀ g₁ (i + 1) e fl taken fl')
    (data : t.stores.data = Function.update s.stores.data b (pageAt blkbuf b₀ i)) (here : fNo t'.f i = b)
    (inside : i < max e g₁) :
    (∀ j, i ≤ j → j < e → t'.stores.data (fNo t'.f j) = pageAt blkbuf b₀ j) ∧
      ∀ c, (∀ j, i ≤ j → j < e → fNo t'.f j ≠ c) → i < e → t'.stores.data c = s.stores.data c := by
  refine ⟨fun j lower upper => ?_, fun c avoid first => ?_⟩
  · by_cases same : j = i
    · subst same
      have apart : ∀ j', j + 1 ≤ j' → j' < e → fNo t'.f j' ≠ b := fun j' lower' upper' equal => by
        have := rest.held.inj j' (by omega) j (by omega) (equal.trans here.symm)
        omega
      rw [here, rest.frame b apart, data, Function.update_self]
    · exact rest.page j (by omega) upper
  · rw [rest.frame c fun j lower upper => avoid j (by omega) upper, data,
      Function.update_of_ne fun equal => avoid i le_rfl first (here.trans equal.symm)]

theorem pageAt_eq (atPtr : ptr = 512 * (i - b₀)) :
    (Bytes.take 512 fun j => blkbuf (ptr + j)) = pageAt blkbuf b₀ i := by
  rw [pageAt, Bytes.window, atPtr]

/-- A direct write to block `b` of the data area. -/
structure Overwritten (t t' : State) (b : Nat) (x : Bytes) : Prop where
  stores : t'.stores = t.stores.setData b x
  f : t'.f = t.f
  errno : t'.errno = t.errno
  synced : Synced t → Synced t'
  traced : Traced t t'
  ub : t'.ub = t.ub

theorem blockWrite_spec {x : Bytes} (lower : 1025 ≤ b) (upper : b < 32768) :
    Overwritten t (blockWrite (t.note (.streamWrite b)) b x) b (x.take 512) := by
  have within : b < 4194304 := upper.trans (by decide)
  have eq := blockWrite_eq (s := t.note (.streamWrite b)) (x := x) within
  have stores : (blockWrite (t.note (.streamWrite b)) b x).stores = t.stores.setData b (x.take 512) := by
    rw [stores_blockWrite lower within, stores_note]
  have trace : (blockWrite (t.note (.streamWrite b)) b x).trace = .streamWrite b :: t.trace := by rw [eq]; rfl
  refine ⟨stores, by rw [eq]; rfl, by rw [eq]; rfl, fun synced => ?_, ⟨fun c member => ?_, fun c member => ?_⟩, by rw [eq]; rfl⟩
  · have buf : (blockWrite (t.note (.streamWrite b)) b x).superBlockBuf = t.superBlockBuf := by rw [eq]; rfl
    rw [Synced, stores, Stores.setData_sup, buf]
    exact synced
  · rw [trace] at member
    rcases List.mem_cons.mp member with rfl | earlier
    · exact Or.inr ⟨by omega, by omega⟩
    · exact Or.inl earlier
  · rw [trace]
    exact List.mem_cons_of_mem _ member

/-- One round on a block of the file, and the rounds after it. -/
theorem Written.overwrite (wrote : Overwritten s t (fNo s.f i) (pageAt blkbuf b₀ i))
    (inside : i < g) (rest : Written t t' blkbuf b₀ g (i + 1) e fl taken fl') (lower : i < e) :
    Written s t' blkbuf b₀ g i e fl taken fl' := by
  have here : fNo t'.f i = fNo s.f i := by rw [rest.kept i inside, wrote.f]
  obtain ⟨page, frame⟩ := rest.page_frame (s := s) (by rw [wrote.stores, Stores.setData_data]) here (by omega)
  refine ⟨rest.list, rest.split, rest.rows, ?_, fun j hj => ?_, rest.new, rest.held, page,
    fun c avoid => frame c avoid lower, fun counted => rest.count ?_, fun synced => rest.synced
      (wrote.synced synced), wrote.traced.trans rest.traced, rest.ub.trans wrote.ub⟩
  · rw [rest.pool, wrote.stores, Stores.setData_pool]
  · rw [rest.kept j hj, wrote.f]
  · rw [wrote.stores, Stores.setData_sup, counted]

/-- One round that takes a new block. -/
structure Allocated (t t' : State) (g b : Nat) (fl : List Nat) (x : Bytes) : Prop where
  list : FreeList t'.stores fl
  pool : t'.stores.pool = t.stores.pool
  data : t'.stores.data = Function.update t.stores.data b x
  kept : ∀ j < g, fNo t'.f j = fNo t.f j
  new : fNo t'.f g = b
  count : freeBlockSize t.stores.sup = (fl.length + 1 : Nat) → freeBlockSize t'.stores.sup = fl.length
  errno : t'.errno = t.errno
  synced : Synced t'
  traced : Traced t t'
  ub : t'.ub = t.ub

theorem blockImage_some (x : Bytes) : blockImage (some x) = x.take 512 := rfl

theorem freeBlockAllocate_spec (buff : Option Bytes) (list : FreeList t.stores (b :: fl)) (within : g < 8344) :
    (freeBlockAllocate t buff).1 = b ∧ 1025 ≤ b ∧
      Allocated t (fSet (freeBlockAllocate t buff).2 g (freeBlockAllocate t buff).1) g b fl
        (blockImage buff) := by
  obtain ⟨_, lower, upper⟩ := list.head_pos
  have bound := list.length_le
  rw [List.length_cons] at bound
  obtain ⟨t₀, run, unlinked, data, synced, calm⟩ := freeBlockAllocate_cons buff list
  have block : (freeBlockAllocate t buff).1 = b := by rw [run]
  have state : (freeBlockAllocate t buff).2 = t₀ := by rw [run]
  rw [block, state, fSet_nat within (upper.trans (by decide))]
  have stores : ({ t₀ with f := t₀.f.put32 (blknumSize * g) b } : State).stores = t₀.stores :=
    stores_congr rfl
  refine ⟨rfl, lower, by rw [stores]; exact unlinked.list, by rw [stores, unlinked.pool],
    by rw [stores, data], fun j hj => ?_, fNo_put32_self (upper.trans (by decide)), fun counted => ?_,
    calm.errno, by rw [Synced, stores]; exact synced, calm.toTraced.trans (.of_eq rfl), calm.ub⟩
  · exact (fNo_put32_of_ne (by omega)).trans (by rw [calm.f])
  · rw [stores, unlinked.count, counted, int32_of_mem (by omega) (by omega)]
    omega

theorem Written.allocate (got : Allocated s t i b fl (pageAt blkbuf b₀ i))
    (rest : Written t t' blkbuf b₀ (i + 1) (i + 1) e fl taken fl') (lower : i < e) :
    Written s t' blkbuf b₀ i i e (b :: fl) (b :: taken) fl' := by
  have here : fNo t'.f i = b := by rw [rest.kept i (by omega), got.new]
  obtain ⟨page, frame⟩ := rest.page_frame (s := s) got.data here (by omega)
  have rows := rest.rows
  refine ⟨rest.list, by rw [rest.split]; rfl, ?_, by rw [rest.pool, got.pool], fun j hj => ?_,
    fun j within => ?_, ?_, page, fun c avoid => frame c avoid lower, fun counted => rest.count
      (got.count counted), fun _ => rest.synced got.synced, got.traced.trans rest.traced, rest.ub.trans got.ub⟩
  · rw [List.length_cons]
    omega
  · rw [rest.kept j (by omega), got.kept j hj]
  · cases j with
    | zero => exact here
    | succ j =>
      rw [List.length_cons] at within
      rw [show i + (j + 1) = i + 1 + j by omega, rest.new j (by omega)]
      rfl
  · rw [show max e i = max e (i + 1) by omega]
    exact rest.held

/-- The write loop puts the pages of the buffer into the blocks of the file,
and takes new blocks while there are any. -/
theorem writeBlocks_spec (blkbuf : Bytes) (list : FreeList t.stores fl) (held : Held t.f g fl) (rows : g = max i bSize)
    (start : b₀ ≤ i) (atPtr : ptr = 512 * (i - b₀)) (count : i + n = bEnd) :
    ∃ (e : Nat) (t' : State) (taken fl' : List Nat),
      writeBlocks t bSize bEnd i blkbuf ptr n = (↑e, t') ∧ i ≤ e ∧
      Written t t' blkbuf b₀ g i e fl taken fl' ∧
      (e = max i (min bEnd 8344) ∧ t'.errno = t.errno ∨
        fl' = [] ∧ e < min bEnd 8344 ∧ bSize ≤ e ∧ .freeBlockAllocate (-1) ∈ t'.trace ∧ t'.errno = -ENOSPC) := by
  induction n generalizing t i g ptr fl with
  | zero => exact ⟨i, t, [], fl, rfl, le_rfl, .refl list held le_rfl (by omega), Or.inl ⟨by omega, rfl⟩⟩
  | succ n ih =>
    have next : (i : Int) + 1 = ((i + 1 : Nat) : Int) := by omega
    by_cases stop : i < 8344
    · have cond : (i : Int) < bEnd ∧ (i : Int) < FENTRY_MAX_SIZE := by
        simp only [FENTRY_MAX_SIZE]
        omega
      have nextPtr : ptr + BLOCK_SIZE = 512 * (i + 1 - b₀) := by
        simp only [BLOCK_SIZE]
        omega
      rw [writeBlocks, if_pos cond]
      by_cases inside : i < bSize
      · -- the block is there already
        obtain ⟨lower, upper⟩ := held.area i (by omega)
        have block : fGet t i = fNo t.f i := fGet_nat (upper.trans (by decide))
        have inside' : (i : Int) < bSize := by omega
        simp only [inside', if_true, fBad_nat stop, fault_false, fGet_note, block, next]
        have wrote := blockWrite_spec (t := t) (x := fun j => blkbuf (ptr + j)) lower upper
        rw [pageAt_eq atPtr] at wrote
        generalize blockWrite (t.note (.streamWrite (fNo t.f i))) (fNo t.f i) (fun j => blkbuf (ptr + j)) = t₁
          at wrote ⊢
        have list₁ : FreeList t₁.stores fl :=
          list.congr (by rw [wrote.stores, Stores.setData_sup]) fun b member => by
            rw [wrote.stores, Stores.setData_data, Function.update_of_ne]
            rintro rfl
            exact held.off i (by omega) member
        obtain ⟨e, t', taken, fl', run, lowerE, rest, final⟩ := ih (i := i + 1) (g := g) list₁
          (by rwa [wrote.f]) (by omega) (by omega) nextPtr (by omega)
        refine ⟨e, t', taken, fl', run, by omega, rest.overwrite wrote (by omega) (by omega), ?_⟩
        rcases final with ⟨atEnd, errno⟩ | short
        · exact Or.inl ⟨by omega, errno.trans wrote.errno⟩
        · exact Or.inr short
      · have outside : ¬ (i : Int) < bSize := by omega
        have gIs : g = i := by omega
        subst gIs
        simp only [outside, if_false, next]
        cases fl with
        | nil =>
          obtain ⟨t₁, run, stores, f, synced, traced, failed, errno, ub⟩ :=
            freeBlockAllocate_nil (some fun j => blkbuf (ptr + j)) list
          simp only [run, show (-1 : Int) < 0 by decide, if_true]
          refine ⟨g, t₁, [], [], rfl, le_rfl, ⟨by rwa [stores], rfl, by simp, by rw [stores],
            fun _ _ => by rw [f], fun j within => absurd within (Nat.not_lt_zero j), ?_,
            fun j _ _ => by omega, fun _ _ => by rw [stores], fun counted => by rwa [stores],
            fun _ => synced, traced, ub⟩, Or.inr ⟨rfl, by omega, by omega, failed, errno⟩⟩
          rw [f, Nat.max_self]
          exact held
        | cons b fl₁ =>
          obtain ⟨block, lower, got⟩ := freeBlockAllocate_spec
            (some fun j => blkbuf (ptr + j)) list stop
          have positive : ¬ (freeBlockAllocate t (some fun j => blkbuf (ptr + j))).1 < 0 := by
            rw [block]
            omega
          simp only [positive, if_false]
          rw [blockImage_some, pageAt_eq atPtr] at got
          generalize fSet (freeBlockAllocate t (some fun j => blkbuf (ptr + j))).2 g
            (freeBlockAllocate t (some fun j => blkbuf (ptr + j))).1 = t₁ at got ⊢
          obtain ⟨e, t', taken, fl', run, lowerE, rest, final⟩ := ih (t := t₁) (i := g + 1) (g := g + 1)
            got.list (held.cons list got.kept got.new) (by omega) (by omega) nextPtr (by omega)
          refine ⟨e, t', b :: taken, fl', run, by omega, rest.allocate got (by omega), ?_⟩
          rcases final with ⟨atEnd, errno⟩ | short
          · exact Or.inl ⟨by omega, errno.trans got.errno⟩
          · exact Or.inr short
    · have cond : ¬ ((i : Int) < bEnd ∧ (i : Int) < FENTRY_MAX_SIZE) := by
        simp only [FENTRY_MAX_SIZE]
        omega
      rw [writeBlocks, if_neg cond]
      exact ⟨i, t, [], fl, rfl, le_rfl, .refl list held le_rfl (by omega), Or.inl ⟨by omega, rfl⟩⟩

end Sfs
