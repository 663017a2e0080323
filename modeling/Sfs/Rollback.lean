import Sfs.Attributes
import Sfs.Makes
import Sfs.Superblock

namespace Sfs

/-- Requests that only look are answered in `s'` as in `s`. -/
structure LooksAs (s s' : State) : Prop where
  lookups : ∀ pa, Proper s (render pa) pa → namei s' pa = namei s pa
  attributes : ∀ pa, Proper s (render pa) pa → (sfsGetattr s' (render pa)).1 = (sfsGetattr s (render pa)).1
  names : ∀ pa, Proper s (render pa) pa → ¬ FileAt s pa → (sfsReaddir s' (render pa)).1 = (sfsReaddir s (render pa)).1
  reads : ∀ pa (size offset : Nat), Proper s (render pa) pa → ¬ DirAt s pa → 0 ≤ int32 offset →
    (sfsRead s' (render pa) size offset).1 = (sfsRead s (render pa) size offset).1

/-- Directory `m` has got an entry and lost it again, and the superblock is `x`. -/
structure RolledBack (L : Set Nat) (s s' : State) (m : Nat) (x : Bytes) : Prop where
  sup : s'.stores.sup = x
  data : s'.stores.data = s.stores.data
  free : s'.stores.pool.free = s.stores.pool.free
  owned : Owned L s'.stores.pool
  same : ∀ k ∈ L, k ≠ m → Same s.stores.pool s'.stores.pool k
  dir : isdir (s'.stores.pool.cell m) = isdir (s.stores.pool.cell m)
  links : nlink (s'.stores.pool.cell m) = nlink (s.stores.pool.cell m)
  agree : Table.Agree (dirTable s.stores.pool m) (dirTable s'.stores.pool m)

variable {L : Set Nat} {s s' : State} {p p' : Pool Bytes} {fl : List Nat} {k m n : Nat} {c : List UInt8} {pa : Path}
  {tail buf x : Bytes} {image : Nat → Bytes} {op : Op} {ops : List Op} {disk : Bytes} {r : Int}

theorem wants_of_pageCount {ptrEnd cacheEnd : Nat} (none : pageCount ptrEnd cacheEnd = 0) (grows : cacheEnd ≤ ptrEnd)
    (i : Nat) : Wants ptrEnd i ↔ Wants cacheEnd i := by
  refine ⟨fun wants => ?_, fun was => was.mono grows⟩
  by_contra new
  have member : i ∈ (Finset.range 264).filter fun c => Wants ptrEnd c ∧ ¬ Wants cacheEnd c :=
    Finset.mem_filter.mpr ⟨Finset.mem_range.mpr wants.1, wants, new⟩
  rw [Finset.card_eq_zero.mp none] at member
  exact absurd member (Finset.notMem_empty i)

theorem freeInodePush_zero (s : State) : freeInodePush s 0 = s := if_pos Nat.zero_lt_two

/-- Without a free inode the new node is number 0. Its image replaces the
superblock, and its entry is taken back. -/
theorem newNode_rolledBack (good : Good s L fl) (live : m ∈ L) (ok : DirOk s.stores.pool m) (plain : Plain c)
    (short : c.length ≤ 13) (absent : (dirTable s.stores.pool m).find c = none) (none : s.stores.pool.freeCount 1024 = 0)
    (inline : linkNeed s.stores.pool m = 1) (run : newNode s image m (Bytes.cstr c tail) = (r, s')) :
    r = -ENOSPC ∧ RolledBack L s s' m ((image 0).take 128) := by
  have rows := good.tree.rows_le good.owned live ok
  have ends := endOf_dir ok.dir
  have entry : entrySize (s.stores.pool.cell m) = diEntSize := if_pos ok.dir
  have need : pageCount (diEntSize * (size (s.stores.pool.cell m) + 1)) (diEntSize * size (s.stores.pool.cell m)) = 0 := by
    rw [linkNeed] at inline
    omega
  obtain ⟨s₁, popped, same, errno⟩ := freeInodePop_none none
  simp only [newNode, popped] at run
  have stores := stores_inodeDump_zero s₁ (image 0)
  have errno₂ := inodeDump_errno s₁ (0 : Nat) (image 0)
  generalize inodeDump s₁ (0 : Nat) (image 0) = s₂ at *
  rw [same] at stores
  rw [errno] at errno₂
  have pool : s₂.stores.pool = s.stores.pool := by rw [stores, Stores.setSup_pool]
  -- the entry is added ...
  simp only [sfsLink] at run
  generalize addedIs : dnodeAppend s₂ m (diEntC (Bytes.cstr c tail) (ushort (0 : Nat))) = t at *
  obtain ⟨⟨buf, reset⟩, pushed, links, _⟩ := dnodeAppend_spec (by rw [pool]; exact good.owned) live
    (by rw [pool]; exact ok.dir) (by rw [pool]; omega) addedIs (Or.inr (by rw [pool, ends, need]; exact Nat.zero_le _))
  rw [pool] at pushed links
  have first := reset.toRepaged
  rw [pool] at first
  rw [chars_diEntC, Bytes.chars_cstr plain.noNul, List.take_of_length_le short] at pushed
  have okT : DirOk t.stores.pool m := ok.pushed pushed first.resized.isdir_eq absent plain.nonempty short
  have sizeT : size (t.stores.pool.cell m) = size (s.stores.pool.cell m) + 1 := first.resized.size
  -- ... and, as the error is still pending, dropped
  have pending : (errnoPop t).1 = -ENOSPC := by
    rw [errnoPop, reset.errno, errno₂]
  rw [pending, if_pos (by decide)] at run
  have cleared : (errnoPop t).2.stores = t.stores := stores_errnoPop t
  generalize (errnoPop t).2 = t₁ at *
  generalize removedIs : dnodeRemove t₁ m (Bytes.cstr c tail) = u at *
  rw [Prod.mk.injEq] at run
  obtain ⟨rfl, rfl⟩ := run
  have zero : ushort (0 : Nat) = 0 := ushort_nat (Nat.zero_lt_succ _)
  rw [zero, freeInodePush_zero]
  obtain ⟨⟨buf', reset'⟩, dropped, links', _⟩ := dnodeRemove_hit (r := size (s.stores.pool.cell m))
    (by rw [cleared]; exact first.owned) live (by rw [cleared]; exact okT) plain.noNul short (by rw [cleared, sizeT]; omega)
    (by rw [cleared]; exact pushed.2.2.1) removedIs
  rw [cleared] at dropped links'
  have second := reset'.toRepaged
  rw [cleared, sizeT, Nat.add_sub_cancel] at second
  have dirT : isdir (t.stores.pool.cell m) = isdir (s.stores.pool.cell m) := first.resized.isdir_eq
  have entryT : entrySize (t.stores.pool.cell m) = diEntSize := by rw [entrySize, dirT, if_pos ok.dir]
  have pages := wants_of_pageCount need (Nat.mul_le_mul_left _ (Nat.le_succ _))
  have freeT := first.free_eq good.owned live (by rw [entry, ends]; exact pages)
  have freeU := second.free_eq first.owned live (by
    rw [entryT, endOf, entryT, sizeT]
    exact fun i => (pages i).symm)
  refine ⟨rfl, ?_, ?_, freeU.trans freeT, second.owned, fun k live' ne => ?_, second.resized.isdir_eq.trans dirT, ?_,
    pushed.dropped dropped⟩
  · rw [reset'.rest, Stores.setPool_sup, cleared, reset.rest, Stores.setPool_sup, stores, Stores.setSup_sup]
  · rw [reset'.rest, Stores.setPool_data, cleared, reset.rest, Stores.setPool_data, stores, Stores.setSup_data]
  · exact (first.same good.owned live live' ne).trans (second.same first.owned live live' ne)
  · have small : nlink (s.stores.pool.cell m) < 65536 := Bytes.get16_lt ..
    rw [links', links]
    simp only [ushort]
    omega

namespace RolledBack

variable (back : RolledBack L s s' m x) (good : Good s L fl)

include back

theorem isdir_eq (live : k ∈ L) : isdir (s'.stores.pool.cell k) = isdir (s.stores.pool.cell k) := by
  by_cases here : k = m
  · rw [here, back.dir]
  · rw [(back.same k live here).cell_eq]

theorem size_eq (live : k ∈ L) : size (s'.stores.pool.cell k) = size (s.stores.pool.cell k) := by
  by_cases here : k = m
  · rw [here]
    exact back.agree.1
  · rw [(back.same k live here).cell_eq]

theorem nlink_eq (live : k ∈ L) : nlink (s'.stores.pool.cell k) = nlink (s.stores.pool.cell k) := by
  by_cases here : k = m
  · rw [here, back.links]
  · rw [(back.same k live here).cell_eq]

include good

theorem child_eq (live : k ∈ L) : child s'.stores.pool k c = child s.stores.pool k c := by
  by_cases here : k = m
  · subst here
    rw [child, child, back.dir, back.agree.find_eq]
  · exact (back.same k live here).child_eq (good.owned.fits k live) (good.tree.dirs k live)

theorem tree : Tree L s'.stores.pool := by
  refine good.tree.of_children (fun k live => back.isdir_eq live) (fun k live ok => ?_) (fun k live empty => ?_)
    fun k live c => back.child_eq good live
  · by_cases here : k = m
    · subst here
      exact ok.of_agree back.agree back.dir
    · exact ok.congr (back.same k live here) (good.owned.fits k live)
  · rw [back.size_eq live, empty]

theorem walk_eq : walk (child s'.stores.pool) 2 pa = walk (child s.stores.pool) 2 pa :=
  Walk.congr fun _ _ _ _ _ reach => back.child_eq good (good.tree.reach reach).1

/-- The directories above a path are there as before. -/
theorem proper (proper : Proper s (render pa) pa) : Proper s' (render pa) pa := by
  refine ⟨rfl, proper.plain, ((back.tree good).parents_iff back.owned proper.plain).mpr fun pre y rest split => ?_⟩
  obtain ⟨k, reach, dir⟩ := (good.tree.parents_iff good.owned proper.plain).mp proper.parents pre y rest split
  refine ⟨k, (back.walk_eq good).trans reach, ?_⟩
  rwa [back.isdir_eq (good.tree.reach reach).1]

theorem names_eq (live : k ∈ L) (dir : isdir (s.stores.pool.cell k) ≠ 0) :
    (List.range (size (s'.stores.pool.cell k))).map (entName s'.stores.pool k) =
      (List.range (size (s.stores.pool.cell k))).map (entName s.stores.pool k) := by
  have agree : Table.Agree (dirTable s.stores.pool k) (dirTable s'.stores.pool k) := by
    by_cases here : k = m
    · subst here
      exact back.agree
    · exact (back.same k live here).agree dir (good.owned.fits k live)
  rw [back.size_eq live]
  exact List.map_congr_left fun i within => (agree.2 i (List.mem_range.mp within)).1

theorem lookup_eq (proper : Proper s (render pa) pa) :
    namei s pa = toInum (walk (child s.stores.pool) 2 pa) ∧ namei s' pa = toInum (walk (child s.stores.pool) 2 pa) := by
  have proper' := back.proper good proper
  refine ⟨namei_eq good.owned good.tree proper.plain proper.parents, ?_⟩
  rw [namei_eq back.owned (back.tree good) proper'.plain proper'.parents, back.walk_eq good]

/-- Neither a file nor a directory can be told from what it was. -/
theorem looksAs (one : isdir (s.stores.pool.cell m) = 1) : LooksAs s s' := by
  have tree := back.tree good
  have ne : ∀ {k}, isdir (s.stores.pool.cell k) ≠ 1 → k ≠ m := by
    rintro k other rfl
    exact other one
  refine ⟨fun pa proper => ?_, fun pa proper => ?_, fun pa proper notFile => ?_, fun pa size offset proper notDir past => ?_⟩
  · obtain ⟨old, new⟩ := back.lookup_eq good proper
    rw [old, new]
  · obtain ⟨old, new⟩ := back.lookup_eq good proper
    have proper' := back.proper good proper
    cases reach : walk (child s.stores.pool) 2 pa with
    | none =>
      rw [reach, namei] at old new
      rw [sfsGetattr_absent (by rw [new]; decide), sfsGetattr_absent (by rw [old]; decide)]
    | some k =>
      obtain ⟨live, _⟩ := good.tree.reach reach
      rw [good.tree.sfsGetattr_there good.owned proper reach,
        tree.sfsGetattr_there back.owned proper' ((back.walk_eq good).trans reach), back.isdir_eq live]
      by_cases dir : isdir (s.stores.pool.cell k) = 1
      · rw [if_pos dir, if_pos dir, back.nlink_eq live, back.size_eq live]
      · rw [if_neg dir, if_neg dir, (back.same k live (ne dir)).cell_eq]
  · obtain ⟨old, new⟩ := back.lookup_eq good proper
    have proper' := back.proper good proper
    cases reach : walk (child s.stores.pool) 2 pa with
    | none =>
      rw [reach, namei] at old new
      rw [sfsReaddir_absent (by rw [new]; decide), sfsReaddir_absent (by rw [old]; decide)]
    | some k =>
      obtain ⟨live, _⟩ := good.tree.reach reach
      have dir := not_fileAt good proper notFile reach
      rw [good.tree.sfsReaddir_there good.owned proper reach dir,
        tree.sfsReaddir_there back.owned proper' ((back.walk_eq good).trans reach) (by rw [back.isdir_eq live]; exact dir),
        back.names_eq good live dir]
  · obtain ⟨old, new⟩ := back.lookup_eq good proper
    rw [namei] at old new
    cases reach : walk (child s.stores.pool) 2 pa with
    | none =>
      rw [reach] at old new
      rw [sfsRead_absent (by rw [new]; decide), sfsRead_absent (by rw [old]; decide)]
    | some k =>
      obtain ⟨live, _⟩ := good.tree.reach reach
      have file := not_dirAt good proper notDir reach
      rw [reach, toInum] at old new
      have glance := pathToInum_glance s (render pa)
      have glance' := pathToInum_glance s' (render pa)
      rw [sfsRead, sfsRead, old, new, if_neg (by simp), if_neg (by simp)]
      generalize (pathToInum s (render pa)).2 = t at *
      generalize (pathToInum s' (render pa)).2 = t' at *
      have same := glance.stores_eq
      have same' := glance'.stores_eq
      have kept : Kept t t' k := by
        refine ⟨?_, fun b _ => by rw [same, same', back.data]⟩
        rw [same, same']
        exact back.same k live (ne (by rw [file]; decide))
      exact kept.fstreamRead_eq (by rw [same]; exact good.owned) (by rw [same']; exact back.owned) live live
        (by rw [same]; exact file) (by rw [same]; exact good.blocks.area k live file) past

end RolledBack

/-- Number and parent of an inode stand where the superblock has the head of the free list. -/
theorem head_of_inode {v : Stores} (zero : ino x = 0) (parent : pno x = m) (small : m < 1024) (sup : v.sup = x.take 128) :
    freeBlockHead v.sup = 65536 * m := by
  have bytes : x.get32 0 = ino x + 65536 * pno x := rfl
  rw [sup, freeBlockHead, getInt, Bytes.get32_take (by omega), bytes, zero, parent, int32_of_mem (by omega) (by omega)]
  omega

theorem freeBlockAllocate_head (s : State) (buff : Option Bytes) :
    (freeBlockAllocate s buff).1 = freeBlockHead s.stores.sup := by
  simp only [freeBlockAllocate, superblockRead_eq]

/-- What a request for a new entry leaves behind when no inode is free and the
directory needs no page: nothing that can be seen, and a superblock whose free
list starts past the end of the disk. -/
theorem run_rollback (run : Run step Permit (sfsInit disk) ops s) (make : IsMake op) (vfs : Vfs s op)
    (none : spareInodes s = 0) (inline : inodeNeed s op = 1) : (op.run s).1 = -ENOSPC ∧ LooksAs s (step s op) ∧
      (step s op).stores.pool.free = s.stores.pool.free ∧ (step s op).stores.data = s.stores.data ∧
      MAX_BLOCK_NUM < 65536 * (pathToInum s op.path).1.parent ∧
      ∀ buff, (freeBlockAllocate (step s op) buff).1 = 65536 * (pathToInum s op.path).1.parent := by
  obtain ⟨⟨N, fl, counted⟩, attributed⟩ := run_attributed run
  have good := counted.good
  obtain ⟨cs, m, c, tail, s₁, image, located, short, making⟩ := good.making make vfs
  have absent := located.absent_of_lack good make (by omega)
  have runs := making.absent absent
  have needs := making.need absent
  have range := good.owned.node_range located.live
  have same := making.glance.stores_eq
  generalize outcome : op.run s = o at runs
  obtain ⟨r, s'⟩ := o
  have after : step s op = s' := congrArg Prod.snd outcome
  have one : isdir (s.stores.pool.cell m) = 1 := ((attributed cs m located.walks).of_dir located.ok.dir).1
  obtain ⟨failed, back⟩ := newNode_rolledBack (good.glance making.glance) located.live (by rw [same]; exact located.ok)
    located.last short (by rw [same]; exact located.find_none absent) (by rw [same]; exact none)
    (by rw [same, ← needs, inline]) runs.symm
  have back' : RolledBack (N : Set Nat) s s' m ((image 0).take 128) := by
    obtain ⟨sup, data, free, owned, others, dir, links, agree⟩ := back
    rw [same] at data free others dir links agree
    exact ⟨sup, data, free, owned, others, dir, links, agree⟩
  have head := head_of_inode (making.place 0 (by decide)).1 (making.parent 0) range.2 back'.sup
  have found : (pathToInum s op.path).1.parent = m := by rw [located.found good]
  rw [after, found]
  refine ⟨failed, back'.looksAs good one, back'.free, back'.data, ?_, fun buff => ?_⟩
  · simp only [MAX_BLOCK_NUM]
    omega
  · rw [freeBlockAllocate_head, head]

/-- Under `n` directories of the name `a`, one in the other, the last one is empty. -/
structure Nested (s : State) (L : Set Nat) (fl : List Nat) (n m : Nat) : Prop where
  good : Good s L fl
  walks : walk (child s.stores.pool) 2 (List.replicate n [97]) = some m
  fresh : ∃ q, s.stores.pool.cell m = (dnodeImage m q).take 128
  spare : spareInodes s + n = 1021
  few : size (s.stores.pool.cell 2) ≤ 3
  absent : child s.stores.pool 2 [98] = none

/-- A directory with few entries needs no page for one more. -/
theorem linkNeed_few (few : size (p.cell m) ≤ 3) : linkNeed p m = 1 := by
  rw [linkNeed, pageCount_inline (by rw [diEntSize]; omega)]

theorem plain_nested (plain : Plain c) : ∀ x ∈ List.replicate n [97] ++ [c], Plain x := fun x member => by
  rcases List.mem_append.mp member with above | here
  · rw [List.eq_of_mem_replicate above]
    exact plain_a
  · rwa [List.mem_singleton.mp here]

namespace Nested

variable (nested : Nested s L fl n m)

include nested

theorem dir : DirOk s.stores.pool m ∧ size (s.stores.pool.cell m) = 2 := by
  obtain ⟨q, image⟩ := nested.fresh
  refine ⟨dirOk_dnodeImage image, ?_⟩
  rw [image]
  exact (Bytes.get16_take (by omega)).trans size_dnodeImage

theorem located (plain : Plain c) :
    Located L s (render (List.replicate n [97] ++ [c])) (List.replicate n [97]) m c :=
  ⟨rfl, plain_nested plain, nested.walks, (nested.good.tree.reach nested.walks).1, nested.dir.1⟩

/-- A name in the last directory may be asked for. -/
theorem proper (plain : Plain c) : Proper s (render (List.replicate n [97] ++ [c])) (List.replicate n [97] ++ [c]) := by
  have good := nested.good
  have above : ∀ x ∈ List.replicate n [97] ++ [c], Plain x := plain_nested plain
  refine ⟨rfl, above, (good.tree.parents_iff good.owned above).mpr fun pre y rest split => ?_⟩
  rcases List.eq_nil_or_concat rest with rfl | ⟨rest, z, rfl⟩
  · obtain ⟨rfl, _⟩ := List.append_inj' split rfl
    exact ⟨m, nested.walks, nested.dir.1.dir⟩
  · rw [List.concat_eq_append, ← List.cons_append, ← List.append_assoc] at split
    have above' : ∀ x ∈ List.replicate n [97], Plain x := fun x member => above x (List.mem_append_left _ member)
    exact (good.tree.parents_iff good.owned above').mp (good.tree.parents_of_walk good.owned above' nested.walks)
      pre y rest (List.append_inj' split rfl).1

theorem absent_last : child s.stores.pool m c = none := by
  obtain ⟨q, image⟩ := nested.fresh
  exact child_dnodeImage image

/-- It needs one inode. -/
theorem need (op : Op) (plain : Plain c) (make : IsMake op) (path : op.path = render (List.replicate n [97] ++ [c])) :
    inodeNeed s op = 1 := by
  obtain ⟨_, two⟩ := nested.dir
  have one : linkNeed s.stores.pool m = 1 := linkNeed_few (by omega)
  have found := (nested.located plain).found nested.good
  rw [nested.absent_last, ← path] at found
  cases make <;>
  · simp only [Op.path, inodeNeed] at found ⊢
    rw [found, toInum_none]
    exact (if_neg (show ¬ (-1 : Int) > 0 by decide)).trans one

/-- One directory more, as long as there are inodes. -/
theorem next (free : n < 1021) : Permit s (.mkdir (render (List.replicate (n + 1) [97])) Bytes.zero) ∧
    ∃ L' m', Nested (step s (.mkdir (render (List.replicate (n + 1) [97])) Bytes.zero)) L' fl (n + 1) m' := by
  have good := nested.good
  obtain ⟨ok, two⟩ := nested.dir
  have absent : child s.stores.pool m [97] = none := nested.absent_last
  have located := nested.located plain_a
  have live := located.live
  have proper := nested.proper plain_a
  have need := nested.need (.mkdir (render (List.replicate n [97] ++ [[97]])) Bytes.zero) plain_a .mkdir rfl
  rw [List.replicate_succ']
  have spare := nested.spare
  have room : inodeNeed s (.mkdir (render (List.replicate n [97] ++ [[97]])) Bytes.zero) ≤ spareInodes s := by omega
  refine ⟨⟨⟨_, _, proper, by decide⟩, trivial, Or.inr room⟩, ?_⟩
  obtain ⟨q, _, _, errno, made, _⟩ := sfsMkdir_new good proper (by decide) (Or.inr room) nested.walks absent
  rw [step, Op.run]
  generalize (sfsMkdir s (render (List.replicate n [97] ++ [[97]])) Bytes.zero).2 = s' at *
  have node := made.node good live
  obtain ⟨buf, repaged⟩ := made.repaged
  obtain ⟨owned₁, same₁⟩ := made.owned₁ good
  have cell := (same₁ m live).cell_eq
  have ends : endOf (s.stores.pool.cell m) = 32 := by rw [endOf_dir ok.dir, two, diEntSize]
  have kept : s'.stores.pool.free = (s.stores.pool.take q).free := by
    refine (repaged.free_eq owned₁ (Set.mem_insert_of_mem _ live) fun i => ?_).trans (Pool.write_free ..)
    rw [cell, entrySize, if_pos ok.dir, two, ends, diEntSize]
    exact iff_of_false (not_wants_inline (by omega)) (not_wants_inline (by omega))
  have count := Pool.take_freeCount made.free made.upper
  have other : ∀ k ∈ L, k ≠ m → child s'.stores.pool k [98] = child s.stores.pool k [98] := fun k live' ne =>
    made.child_other good live live' ne
  refine ⟨_, q, located.made_good good (by decide) absent made dnodeImage_fresh.1 errno, ?_, ⟨m, node⟩, ?_, ?_, ?_⟩
  · rw [List.replicate_succ']
    exact located.walk_new good made absent
  · rw [spareInodes] at spare ⊢
    rw [Pool.freeCount, kept]
    rw [Pool.freeCount] at count
    omega
  · by_cases top : m = 2
    · subst top
      have grown : size (s'.stores.pool.cell 2) = size (s.stores.pool.cell 2) + 1 := made.pushed.1
      omega
    · rw [(made.same good live good.tree.root (Ne.symm top)).cell_eq]
      exact nested.few
  · by_cases top : m = 2
    · subst top
      rw [made.child_parent good live ok (located.find_none absent) plain_a.notDot plain_a.notDotdot, if_neg (by decide)]
      exact nested.absent
    · rw [other 2 good.tree.root (Ne.symm top)]
      exact nested.absent

end Nested

theorem Initial.nested (initial : Initial s) : Nested s {2} (List.range' 1025 31743) 0 2 := by
  have root := initial.root_end
  have spare : spareInodes s = 1021 := initial.spare
  refine ⟨initial.good, rfl, ⟨2, initial.root⟩, by rw [spare], ?_, child_dnodeImage initial.root⟩
  rw [endOf_dir initial.good.tree.top.dir, diEntSize] at root
  omega

/-- Requests for `n` directories, one in the other. -/
def nestings (n : Nat) : List Op := (List.range n).map fun i => .mkdir (render (List.replicate (i + 1) [97])) Bytes.zero

/-- Directories in directories take all the inodes. -/
theorem nested_runs (within : n ≤ 1021) : ∃ s L m, Run step Permit (sfsInit Bytes.zero) (nestings n) s ∧
    Nested s L (List.range' 1025 31743) n m := by
  induction n with
  | zero => exact ⟨_, {2}, 2, .nil, (sfsInit_initial Bytes.zero).nested⟩
  | succ n ih =>
    obtain ⟨s, L, m, run, nested⟩ := ih (by omega)
    obtain ⟨permit, L', m', nested'⟩ := nested.next (by omega)
    refine ⟨_, L', m', ?_, nested'⟩
    rw [nestings, List.range_succ, List.map_append, ← nestings]
    exact run.next permit

/-- The request for `/b` below 1021 directories in one another. -/
theorem run_rollback_nested : ∃ ops s, Run step Permit (sfsInit Bytes.zero) ops s ∧
    ((Op.create (render [[98]]) Bytes.zero).run s).1 = -ENOSPC ∧ LooksAs s (step s (.create (render [[98]]) Bytes.zero)) ∧
      (step s (.create (render [[98]]) Bytes.zero)).stores.pool.free = s.stores.pool.free ∧
      (step s (.create (render [[98]]) Bytes.zero)).stores.data = s.stores.data ∧
      MAX_BLOCK_NUM < 65536 * (pathToInum s (Op.create (render [[98]]) Bytes.zero).path).1.parent ∧
      ∀ buff, (freeBlockAllocate (step s (.create (render [[98]]) Bytes.zero)) buff).1 =
        65536 * (pathToInum s (Op.create (render [[98]]) Bytes.zero).path).1.parent := by
  obtain ⟨s, L, m, run, nested⟩ := nested_runs le_rfl
  have good := nested.good
  have spare := nested.spare
  have proper := good.tree.proper_top good.owned plain_b
  have located : Located L s (render [[98]]) [] 2 [98] := ⟨rfl, proper.plain, rfl, good.tree.root, good.tree.top⟩
  refine ⟨_, s, run, run_rollback run .create ⟨[], [98], proper, by decide⟩ (by omega) ?_⟩
  have one : linkNeed s.stores.pool 2 = 1 := linkNeed_few nested.few
  simp only [inodeNeed, located.found good, nested.absent, Int.toNat_natCast, one]
  exact if_neg (by decide)

end Sfs
