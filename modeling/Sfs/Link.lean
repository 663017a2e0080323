import Sfs.Good

namespace Sfs

/-- Either no pop failed on the way to `final`, or there were `need` free inodes at the start. -/
def Room (p : Pool Bytes) (need : Nat) (final : State) : Prop :=
  Call.freeInodePop 0 ∉ final.trace ∨ need ≤ p.freeCount 1024

/-- The inodes needed for a new entry in directory `m`. -/
def linkNeed (p : Pool Bytes) (m : Nat) : Nat :=
  1 + pageCount (diEntSize * (size (p.cell m) + 1)) (diEntSize * size (p.cell m))

/-- The common part of `sfs_create` and `sfs_mkdir`. `x` is the inode written
for the new node. -/
def newNode (s : State) (x : Nat → Bytes) (m : Nat) (filename : Bytes) : Int × State :=
  let inum := freeInodePop s
  sfsLink (inodeDump inum.2 inum.1 (x inum.1)) inum.1 m filename

/-- Directory `m` has got an entry `key` for the new node `q`. -/
structure Made (L : Set Nat) (s s' : State) (q m : Nat) (x : Bytes) (key : List UInt8) : Prop where
  free : s.stores.pool.free q = true
  upper : q < 1024
  ino : ino x = q
  small : endOf x ≤ 96
  repaged : ∃ buf, Repaged (insert q L) ((s.stores.pool.take q).write q x) s'.stores.pool m
    (size (s.stores.pool.cell m) + 1) buf
  pushed : Table.Pushed (dirTable s.stores.pool m) (dirTable s'.stores.pool m) key q
  rest : s'.stores = s.stores.setPool s'.stores.pool
  traced : Traced s s'
  synced : Synced s → Synced s'

variable {L : Set Nat} {s s' final : State} {p p' : Pool Bytes} {fl : List Nat} {k m n q : Nat} {x : Bytes}
  {c key : List UInt8} {filename item : Bytes}

theorem later_dnodeListingSet {inum : Nat} {newsize : Int} : Later s (dnodeListingSet s inum newsize) := by
  rw [dnodeListingSet]
  split
  · exact Later.trans (show Later s (errnoPush s (-EFBIG)) from .of_eq rfl) later_listingSet
  · exact later_listingSet

theorem dnodeListing_trace (s : State) (inum : Nat) : (dnodeListing s inum).2.trace = s.trace := by
  cases s
  rfl

theorem fault_trace (s : State) (bad : Bool) : (s.fault bad).trace = s.trace := rfl

theorem setD_trace (s : State) (d : Bytes) : ({ s with d } : State).trace = s.trace := rfl

theorem later_dnodeAppend {inum : Int} : Later s (dnodeAppend s inum item) := by
  have listed := dnodeListing_trace s (ushort inum)
  simp only [dnodeAppend]
  generalize dnodeListing s (ushort inum) = l at *
  refine Later.trans ?_ (later_inodeDump _ _ _)
  refine Later.trans ?_ later_dnodeListingSet
  refine .of_eq ?_
  rw [setD_trace, fault_trace, listed]

theorem later_dnodeRemoveLoop {inum : Int} {rows i n : Nat} :
    Later s (dnodeRemoveLoop s inum filename rows i n) := by
  induction n generalizing s i with
  | zero => exact fun _ => id
  | succ n ih =>
    simp only [dnodeRemoveLoop]
    generalize startIs : s.fault (decide (i ≥ DENTRY_MAX_SIZE)) = t
    have trace : t.trace = s.trace := by rw [← startIs, fault_trace]
    refine Later.trans ?_ ih
    split
    · refine Later.trans ?_ (later_inodeDump _ _ _)
      refine Later.trans ?_ later_dnodeListingSet
      refine .of_eq ?_
      rw [setD_trace, trace]
    · exact .of_eq trace

theorem later_dnodeRemove {inum : Int} : Later s (dnodeRemove s inum filename) := by
  rw [dnodeRemove]
  refine Later.trans (.of_eq ?_) later_dnodeRemoveLoop
  rw [dnodeListing_trace]

theorem later_sfsLink (s : State) (inum pInum : Int) (filename : Bytes) :
    Later (dnodeAppend s pInum (diEntC filename (ushort inum))) (sfsLink s inum pInum filename).2 := by
  simp only [sfsLink]
  generalize dnodeAppend s pInum (diEntC filename (ushort inum)) = t
  split
  · refine Later.trans ?_ (later_freeInodePush _ _)
    refine Later.trans ?_ later_dnodeRemove
    exact .of_eq rfl
  · exact .of_eq rfl

theorem stores_setErrno (s : State) (errno : Int) : ({ s with errno } : State).stores = s.stores :=
  stores_congr rfl

theorem traced_setErrno (s : State) (errno : Int) : Traced s { s with errno } := .of_eq rfl

theorem setErrno_ub (s : State) (errno : Int) : ({ s with errno } : State).ub = s.ub := rfl

theorem synced_setErrno (synced : Synced s) (errno : Int) : Synced { s with errno } := by
  rw [Synced, stores_setErrno]
  exact synced

theorem sfsLink_eq {t : State} {inum pInum : Int}
    (added : dnodeAppend s pInum (diEntC filename (ushort inum)) = t) (clear : t.errno = 0) :
    sfsLink s inum pInum filename = (0, { t with errno := 0 }) := by
  have popped : errnoPop t = (0, { t with errno := 0 }) := by rw [errnoPop, clear]
  rw [sfsLink, added, popped]
  exact if_neg (Int.lt_irrefl 0)

/-- A pop for which there is room succeeds. -/
theorem freeInodePop_room {need : Nat} (room : Room s.stores.pool (1 + need) final)
    (later : Later (freeInodePop s).2 final) :
    ∃ q disk, freeInodePop s = (q, { s with disk := disk, trace := .freeInodePop q :: s.trace }) ∧ q < 1024 ∧
      s.stores.pool.free q = true ∧ (freeInodePop s).2.stores = s.stores.setPool (s.stores.pool.take q) ∧
      Room (s.stores.pool.take q) need final := by
  rcases freeInodePop_cases s with ⟨q, disk, run, upper, free, _, stores⟩ | ⟨run, empty⟩
  · refine ⟨q, disk, run, upper, free, stores, room.imp_right fun budget => ?_⟩
    have := Pool.take_freeCount free upper
    omega
  · exfalso
    rcases room with never | budget
    · refine never (later _ ?_)
      rw [run]
      exact List.mem_cons_self ..
    · have none : s.stores.pool.freeCount 1024 = 0 := by
        refine Finset.card_eq_zero.mpr (Finset.filter_eq_empty_iff.mpr fun q member free => ?_)
        rw [empty q (Finset.mem_range.mp member)] at free
        exact Bool.false_ne_true free
      omega

theorem later_newNode (filename : Bytes) {x : Nat → Bytes} : Later (freeInodePop s).2 (newNode s x m filename).2 := by
  simp only [newNode]
  refine Later.trans ?_ (later_sfsLink _ _ _ _)
  refine Later.trans ?_ later_dnodeAppend
  exact later_inodeDump _ _ _

theorem newNode_spec {x : Nat → Bytes} {r : Int} (good : Good s L fl) (live : m ∈ L) (ok : DirOk s.stores.pool m)
    (clean : 0 ∉ c) (fits : size (s.stores.pool.cell m) + 1 < 2086)
    (image : ∀ q < 1024, ino (x q) = q ∧ endOf (x q) ≤ 96)
    (run : newNode s x m (Bytes.cstr c filename) = (r, s'))
    (room : Room s.stores.pool (linkNeed s.stores.pool m) s') :
    ∃ q, (freeInodePop s).1 = q ∧ r = 0 ∧ s'.errno = 0 ∧ Made L s s' q m ((x q).take 128) (c.take 13) ∧
      nlink (s'.stores.pool.cell m) = ushort ((nlink (s.stores.pool.cell m) : Int) + 1) ∧ s'.ub = s.ub := by
  have later : Later (freeInodePop s).2 s' := by
    have whole := later_newNode (s := s) (x := x) (m := m) (Bytes.cstr c filename)
    rwa [run] at whole
  obtain ⟨q, disk, popped, upper, free, stores, room'⟩ := freeInodePop_room room later
  rw [popped] at stores
  have inum : (freeInodePop s).1 = q := by rw [popped]
  simp only [newNode, popped] at run
  have traced₁ : Traced s { s with disk := disk, trace := .freeInodePop q :: s.trace } := by
    refine ⟨fun c member => ?_, fun c member => List.mem_cons_of_mem _ member⟩
    exact (List.mem_cons.mp member).elim (fun new => Or.inr (new ▸ trivial)) Or.inl
  have synced₁ : Synced s → Synced { s with disk := disk, trace := .freeInodePop q :: s.trace } := fun synced => by
    rw [Synced, stores, Stores.setPool_sup]
    exact synced
  have errno₁ : ({ s with disk := disk, trace := .freeInodePop q :: s.trace } : State).errno = s.errno := rfl
  have ub₁ : ({ s with disk := disk, trace := .freeInodePop q :: s.trace } : State).ub = s.ub := rfl
  generalize ({ s with disk := disk, trace := .freeInodePop q :: s.trace } : State) = s₁ at *
  have lower := good.owned.low q free
  have quiet : Quiet s₁ (inodeDump s₁ q (x q)) := quiet_inodeDump lower upper
  have stores₂ := stores_inodeDump (s := s₁) (k := q) (x := x q) (by omega) (by omega)
  generalize inodeDump s₁ q (x q) = s₂ at *
  rw [stores] at stores₂
  have pool₂ : s₂.stores.pool = (s.stores.pool.take q).write q ((x q).take 128) := by
    rw [stores₂, Stores.setPool_pool, Stores.setPool_pool]
  obtain ⟨inoX, endX⟩ := image q upper
  have ino' : ino ((x q).take 128) = q := (Bytes.get16_take (by omega)).trans inoX
  have end' : endOf ((x q).take 128) ≤ 96 := by
    have same : endOf ((x q).take 128) = endOf (x q) :=
      endOf_congr (Bytes.take_apply_of_lt (by omega)) (Bytes.get16_take (by omega))
    rwa [same]
  clear inoX endX
  obtain ⟨owned₂, same₂⟩ := good.owned.insert free upper ino' end'
  rw [← pool₂] at owned₂ same₂
  have sameM := same₂ m live
  have agree := sameM.agree ok.dir (good.owned.fits m live)
  have rows : size (s₂.stores.pool.cell m) = size (s.stores.pool.cell m) := by rw [sameM.cell_eq]
  have dirM : isdir (s₂.stores.pool.cell m) ≠ 0 := by
    rw [sameM.cell_eq]
    exact ok.dir
  have ends : endOf (s₂.stores.pool.cell m) = diEntSize * size (s.stores.pool.cell m) := by
    rw [sameM.cell_eq, endOf_dir ok.dir]
  generalize addedIs : dnodeAppend s₂ m (diEntC (Bytes.cstr c filename) (ushort q)) = s₃ at *
  have popsRoom : Room s₂.stores.pool (pageCount (diEntSize * (size (s.stores.pool.cell m) + 1))
      (diEntSize * size (s.stores.pool.cell m))) s' := room'.imp_right fun budget => by
    rw [pool₂]
    exact budget
  have later₃ : Later s₃ s' := by
    have whole := later_sfsLink s₂ q m (Bytes.cstr c filename)
    rwa [addedIs, run] at whole
  have pops := Pops.of_later popsRoom later₃
  rw [← ends, ← rows] at pops
  obtain ⟨⟨buf, reset⟩, pushed, links, ub⟩ := dnodeAppend_spec owned₂ (Set.mem_insert_of_mem _ live)
    dirM (by rw [rows]; exact fits) addedIs pops
  have clear : s₃.errno = 0 := by rw [reset.errno, quiet.errno_eq, errno₁, good.errno]
  rw [sfsLink_eq addedIs clear, Prod.mk.injEq] at run
  obtain ⟨rfl, rfl⟩ := run
  have same := stores_setErrno s₃ 0
  have short : ushort q = q := ushort_nat (by omega)
  rw [chars_diEntC, Bytes.chars_cstr clean, get16_diEntC, short, Nat.mod_eq_of_lt (by omega)] at pushed
  rw [rows] at reset
  refine ⟨q, inum, rfl, rfl, ⟨free, upper, ino', end', ⟨buf, ?_⟩, ?_, ?_, ?_, fun synced => ?_⟩,
    by rw [same, links, sameM.cell_eq], (setErrno_ub s₃ 0).trans (ub.trans (quiet.ub_eq.trans ub₁))⟩
  · rw [same, ← pool₂]
    exact reset.toRepaged
  · rw [same]
    exact agree.pushed pushed
  · rw [same, reset.rest, stores₂, Stores.setPool_setPool, Stores.setPool_setPool, Stores.setPool_pool]
  · exact ((traced₁.trans quiet.calm.toTraced).trans reset.traced).trans (traced_setErrno s₃ 0)
  · have synced₂ : Synced s₂ := quiet.synced (synced₁ synced) (by
      rw [stores₂, stores, Stores.setPool_sup])
    exact synced_setErrno (reset.synced synced₂) 0

/-- A new file without blocks, or a new directory with its two special entries. -/
def Fresh (x : Bytes) (q : Nat) : Prop :=
  (isdir x = 0 ∧ size x = 0) ∨ ∃ m, x = (dnodeImage q m).take 128

namespace Made

variable (made : Made L s s' q m x key) (before : Good s L fl) (live : m ∈ L)

include made before

theorem new : q ∉ L := fun member => by
  have used := before.owned.node_used member
  rw [made.free] at used
  exact Bool.false_ne_true used.symm

theorem owned₁ : Owned (insert q L) ((s.stores.pool.take q).write q x) ∧
    ∀ k ∈ L, Same s.stores.pool ((s.stores.pool.take q).write q x) k :=
  before.owned.insert made.free made.upper made.ino made.small

include live

theorem same (live' : k ∈ L) (ne : k ≠ m) : Same s.stores.pool s'.stores.pool k := by
  obtain ⟨buf, repaged⟩ := made.repaged
  obtain ⟨owned₁, same₁⟩ := made.owned₁ before
  exact (same₁ k live').trans
    (repaged.same owned₁ (Set.mem_insert_of_mem _ live) (Set.mem_insert_of_mem _ live') ne)

theorem node : s'.stores.pool.cell q = x := by
  obtain ⟨buf, repaged⟩ := made.repaged
  obtain ⟨owned₁, _⟩ := made.owned₁ before
  have ne : q ≠ m := fun equal => made.new before (equal ▸ live)
  rw [(repaged.same owned₁ (Set.mem_insert_of_mem _ live) (Set.mem_insert _ _) ne).cell_eq, Pool.write_cell_self]

theorem isdir_eq (live' : k ∈ L) : isdir (s'.stores.pool.cell k) = isdir (s.stores.pool.cell k) := by
  by_cases here : k = m
  · subst here
    obtain ⟨buf, repaged⟩ := made.repaged
    obtain ⟨_, same₁⟩ := made.owned₁ before
    rw [repaged.resized.isdir_eq, (same₁ k live').cell_eq]
  · rw [(made.same before live live' here).cell_eq]

theorem child_new (fresh : Fresh x q) : child s'.stores.pool q c = none := by
  have node := made.node before live
  rcases fresh with ⟨file, _⟩ | ⟨m', image⟩
  · exact child_file (by rw [node]; exact file)
  · exact child_dnodeImage (node.trans image)

theorem child_other (live' : k ∈ L) (ne : k ≠ m) : child s'.stores.pool k c = child s.stores.pool k c :=
  (made.same before live live' ne).child_eq (before.owned.fits k live') (before.tree.dirs k live')

theorem child_parent (ok : DirOk s.stores.pool m) (absent : (dirTable s.stores.pool m).find key = none)
    (notDot : key ≠ [46]) (notDotdot : key ≠ [46, 46]) :
    child s'.stores.pool m c = if c = key then some q else child s.stores.pool m c := by
  have find := made.pushed.find_eq (y := c) ok.distinct absent
  rw [child, child, made.isdir_eq before live live, find]
  by_cases here : c = key
  · rw [if_pos here, if_pos ⟨ok.dir, by rwa [here], by rwa [here]⟩, if_pos here]
  · simp only [if_neg here]

/-- The parent is still in order. -/
theorem parent_ok (ok : DirOk s.stores.pool m) (absent : (dirTable s.stores.pool m).find key = none)
    (nonempty : key ≠ []) (short : key.length ≤ 13) : DirOk s'.stores.pool m :=
  ok.pushed made.pushed (made.isdir_eq before live live) absent nonempty short

theorem kept (ok : DirOk s.stores.pool m) (live' : k ∈ L) (file : isdir (s.stores.pool.cell k) = 0) :
    Kept s s' k := by
  have ne : k ≠ m := by
    rintro rfl
    exact ok.dir file
  exact ⟨made.same before live live' ne, fun b _ => by rw [made.rest, Stores.setPool_data]⟩

theorem good (ok : DirOk s.stores.pool m) (absent : (dirTable s.stores.pool m).find key = none)
    (nonempty : key ≠ []) (short : key.length ≤ 13) (notDot : key ≠ [46]) (notDotdot : key ≠ [46, 46])
    (fresh : Fresh x q) (errno : s'.errno = 0) : Good s' (insert q L) fl := by
  have parent := made.parent_ok before live ok absent nonempty short
  have node := made.node before live
  have newDir : isdir (s'.stores.pool.cell q) ≠ 0 → DirOk s'.stores.pool q := fun dir => by
    rw [node] at dir
    rcases fresh with ⟨file, _⟩ | ⟨m', image⟩
    · exact absurd file dir
    · exact dirOk_dnodeImage (node.trans image)
  have oldDir : ∀ k ∈ L, DirOk s.stores.pool k → DirOk s'.stores.pool k := fun k live' ok' => by
    by_cases here : k = m
    · rw [here]
      exact parent
    · exact ok'.congr (made.same before live live' here) (before.owned.fits k live')
  have sup : s'.stores.sup = s.stores.sup := by rw [made.rest, Stores.setPool_sup]
  have data : s'.stores.data = s.stores.data := by rw [made.rest, Stores.setPool_data]
  obtain ⟨buf, repaged⟩ := made.repaged
  refine ⟨repaged.owned, before.tree.grow (made.new before) ?_ (oldDir 2 before.tree.root before.tree.top) ?_ newDir
    (q := m) (c := key) ?_, before.list.congr sup fun b _ => by rw [data],
    before.blocks.congr before.list.nodup ?_, by rw [sup, before.count], made.synced before.synced, errno,
    made.traced.sounds before.sound⟩
  · rintro rfl
    exact made.new before before.tree.root
  · rintro k (rfl | live') dir
    · exact Or.inl (newDir dir)
    · by_cases here : k = m
      · rw [here]
        exact Or.inl parent
      · rw [made.isdir_eq before live live'] at dir
        have untouched := made.same before live live' here
        rw [untouched.cell_eq]
        exact (before.tree.dirs k live' dir).imp_left (oldDir k live')
  · rintro k (rfl | live') c i step
    · rw [made.child_new before live fresh] at step
      exact absurd step.symm (Option.some_ne_none i)
    · have old : child s.stores.pool k c = some i → k ∈ L ∧ child s.stores.pool k c = some i ∧
          (isdir (s'.stores.pool.cell i) ≠ 0 → DirOk s'.stores.pool i) := fun was => by
        obtain ⟨liveI, _, okI⟩ := before.tree.closed k live' c i was
        refine ⟨live', was, fun dir => ?_⟩
        rw [made.isdir_eq before live liveI] at dir
        exact oldDir i liveI (okI dir)
      by_cases here : k = m
      · subst here
        rw [made.child_parent before live ok absent notDot notDotdot] at step
        split at step
        next hit => exact Or.inr ⟨rfl, hit, (Option.some.inj step).symm⟩
        next => exact Or.inl (old step)
      · rw [made.child_other before live live' here] at step
        exact Or.inl (old step)
  · rintro k (rfl | live') file
    · rw [node] at file
      rcases fresh with ⟨_, empty⟩ | ⟨m', image⟩
      · exact Or.inr (by rw [blocksOf, node, empty]; rfl)
      · have dir := (dirOk_dnodeImage (p := s'.stores.pool) (node.trans image)).dir
        rw [node] at dir
        exact absurd file dir
    · have ne : k ≠ m := by
        rintro rfl
        exact parent.dir file
      rw [made.isdir_eq before live live'] at file
      exact Or.inl ⟨live', file, (made.same before live live' ne).blocksOf_eq file (before.owned.fits k live')⟩

end Made

end Sfs
