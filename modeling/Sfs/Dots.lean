import Sfs.Frame
import Sfs.Scan

namespace Sfs

/-- The special entries of directory `k` lead to itself and to `m`. -/
structure Special (p : Pool Bytes) (k m : Nat) : Prop where
  dot : (dirTable p k).find [46] = some k
  dotdot : (dirTable p k).find [46, 46] = some m

/-- The special entries of a directory lead to itself and to the directory it is in. -/
structure Dotted (L : Set Nat) (p : Pool Bytes) : Prop where
  top : Special p 2 2
  inner : ∀ k ∈ L, ∀ c m, child p k c = some m → isdir (p.cell m) ≠ 0 → Special p m k

variable {L L' : Set Nat} {s s' t : State} {p p' : Pool Bytes} {fl fl' : List Nat} {k m n q r j : Nat} {x : Bytes}
  {c : List UInt8} {cs : Path} {op : Op} {ops : List Op} {path : CPath} {tail disk : Bytes}

theorem Special.congr (special : Special p k m)
    (same : ∀ y : List UInt8, y = [46] ∨ y = [46, 46] → (dirTable p' k).find y = (dirTable p k).find y) :
    Special p' k m := by
  refine ⟨?_, ?_⟩
  · rw [same _ (Or.inl rfl), special.dot]
  · rw [same _ (Or.inr rfl), special.dotdot]

theorem Special.same (special : Special p k m) (same : Same p p' k) (ok : DirOk p k) (fits : endOf (p.cell k) ≤ 33376) :
    Special p' k m := special.congr fun _ _ => (same.agree ok.dir fits).find_eq

theorem special_dnodeImage (image : p.cell k = (dnodeImage k m).take 128) (small : k < 65536) (small' : m < 65536) :
    Special p k m := by
  have ok := dirOk_dnodeImage image
  have two := ok.two
  have byte : ∀ j < 32, bytesOf p k j = dnodeImage k m (16 + j) := fun j within => by
    rw [bytesOf_inline (by omega), image, Bytes.take_apply_of_lt (by omega)]
  have self : entInum p k 0 = k := by
    have same : entInum p k 0 = (diEntC (Bytes.cstr [46] Bytes.zero) k).get16 14 := by
      refine Bytes.get16_congr ?_ ?_
      · rw [Nat.mul_zero, Nat.zero_add, byte _ (by omega), (dnodeImage_entry (by omega)).1]
      · rw [Nat.mul_zero, Nat.zero_add, byte _ (by omega), (dnodeImage_entry (by omega)).1]
    rw [same, get16_diEntC, Nat.mod_eq_of_lt small]
  have parent : entInum p k 1 = m := by
    have same : entInum p k 1 = (diEntC (Bytes.cstr [46, 46] Bytes.zero) m).get16 14 := by
      refine Bytes.get16_congr ?_ ?_
      · rw [diEntSize, byte _ (by omega), ← (dnodeImage_entry (q := k) (by omega)).2]
      · rw [diEntSize, byte _ (by omega), ← (dnodeImage_entry (q := k) (by omega)).2]
    rw [same, get16_diEntC, Nat.mod_eq_of_lt small']
  exact ⟨(Table.find_some ok.distinct).mpr ⟨0, show 0 < size (p.cell k) by omega, ok.dot, self⟩,
    (Table.find_some ok.distinct).mpr ⟨1, show 1 < size (p.cell k) by omega, ok.dotdot, parent⟩⟩

/-- The special entries are kept while no directory is added. -/
theorem Dotted.kept (dotted : Dotted L p) (top : Special p 2 2 → Special p' 2 2)
    (old : ∀ k ∈ L', ∀ c m, child p' k c = some m → isdir (p'.cell m) ≠ 0 →
      Special p' m k ∨ (k ∈ L ∧ child p k c = some m ∧ isdir (p.cell m) ≠ 0 ∧ (Special p m k → Special p' m k))) :
    Dotted L' p' := by
  refine ⟨top dotted.top, fun k live c m leads dir => ?_⟩
  rcases old k live c m leads dir with new | ⟨live', was, dir', kept⟩
  · exact new
  · exact kept (dotted.inner k live' c m was dir')

/-- A list of a file is no part of it. -/
theorem FileStep.dotted (change : FileStep L s s' k n fl fl') (good : Good s L fl) (live : k ∈ L)
    (file : isdir (s.stores.pool.cell k) = 0) (dotted : Dotted L s.stores.pool) : Dotted L s'.stores.pool := by
  obtain ⟨f, repaged⟩ := change.repaged
  have special : ∀ m ∈ L, DirOk s.stores.pool m → ∀ i, Special s.stores.pool m i → Special s'.stores.pool m i :=
    fun m live' ok i special => by
      have ne : m ≠ k := by
        rintro rfl
        exact ok.dir file
      exact special.same (repaged.same good.owned live live' ne) ok (good.owned.fits m live')
  refine dotted.kept (special 2 good.tree.root good.tree.top 2) fun i live' c m leads dir => ?_
  rw [change.child_eq good live file live'] at leads
  obtain ⟨liveM, _, ok⟩ := good.tree.closed i live' c m leads
  rw [change.isdir_eq good live liveM] at dir
  exact Or.inr ⟨live', leads, dir, special m liveM (ok dir) i⟩

theorem Spilled.dotted (spilled : Spilled t s') (good : Good t L fl) (dotted : Dotted L t.stores.pool) :
    Dotted L s'.stores.pool := by
  refine dotted.kept (fun special => special.same (spilled.same 2) good.tree.top (good.owned.fits 2 good.tree.root))
    fun i live c m leads dir => ?_
  rw [(spilled.same i).child_eq (good.owned.fits i live) (good.tree.dirs i live)] at leads
  obtain ⟨liveM, _, ok⟩ := good.tree.closed i live c m leads
  rw [(spilled.same m).cell_eq] at dir
  exact Or.inr ⟨live, leads, dir, fun special => special.same (spilled.same m) (ok dir) (good.owned.fits m liveM)⟩

namespace Located

variable (located : Located L s path cs m c) (good : Good s L fl)

include located good

/-- An entry under a name like any other is added. -/
theorem dotted_made (made : Made L s s' q m x c) (absent : child s.stores.pool m c = none) (fresh : Fresh x q)
    (new : isdir x ≠ 0 → Special s'.stores.pool q m) (dotted : Dotted L s.stores.pool) :
    Dotted (insert q L) s'.stores.pool := by
  have find := located.find_none absent
  have notDot := located.last.notDot
  have notDotdot := located.last.notDotdot
  have special : ∀ j ∈ L, DirOk s.stores.pool j → ∀ i, Special s.stores.pool j i → Special s'.stores.pool j i :=
    fun j live ok i special => by
      by_cases here : j = m
      · subst here
        refine special.congr fun y dots => ?_
        rw [made.pushed.find_eq ok.distinct find, if_neg]
        rintro rfl
        exact dots.elim notDot notDotdot
      · exact special.same (made.same good located.live live here) ok (good.owned.fits j live)
  refine dotted.kept (special 2 good.tree.root good.tree.top 2) ?_
  rintro i (rfl | live) y j leads dir
  · rw [made.child_new good located.live fresh] at leads
    exact nomatch leads
  · have old : child s.stores.pool i y = some j → Special s'.stores.pool j i ∨ (i ∈ L ∧ child s.stores.pool i y = some j ∧
        isdir (s.stores.pool.cell j) ≠ 0 ∧ (Special s.stores.pool j i → Special s'.stores.pool j i)) := fun was => by
      obtain ⟨liveJ, _, ok⟩ := good.tree.closed i live y j was
      rw [made.isdir_eq good located.live liveJ] at dir
      exact Or.inr ⟨live, was, dir, special j liveJ (ok dir) i⟩
    by_cases here : i = m
    · subst here
      rw [made.child_parent good located.live located.ok find notDot notDotdot] at leads
      split at leads
      next hit =>
        obtain rfl : q = j := Option.some.inj leads
        rw [made.node good located.live] at dir
        exact Or.inl (new dir)
      next => exact old leads
    · rw [made.child_other good located.live live here] at leads
      exact old leads

/-- The entry of node `k` is dropped. -/
theorem dotted_removal (removal : Removal L L' s s' k m r fl') (step : child s.stores.pool m c = some k)
    (within : r < size (s.stores.pool.cell m)) (hit : entName s.stores.pool m r = c) (dotted : Dotted L s.stores.pool) :
    Dotted L' s'.stores.pool := by
  have notDot := located.last.notDot
  have notDotdot := located.last.notDotdot
  obtain ⟨_, notRoot, _⟩ := good.tree.closed m located.live c k step
  have find : ∀ y, (dirTable s'.stores.pool m).find y = if y = c then Option.none else (dirTable s.stores.pool m).find y :=
    fun y => by
      rw [removal.dropped.find_eq located.ok.distinct within]
      replace hit : (dirTable s.stores.pool m).key r = c := hit
      rw [hit]
  have special : ∀ j ∈ L, j ≠ k → DirOk s.stores.pool j → ∀ i, Special s.stores.pool j i → Special s'.stores.pool j i :=
    fun j live ne ok i special => by
      by_cases here : j = m
      · subst here
        refine special.congr fun y dots => ?_
        rw [find, if_neg]
        rintro rfl
        exact dots.elim notDot notDotdot
      · exact special.same (removal.same j live ne here) ok (good.owned.fits j live)
  refine dotted.kept (special 2 good.tree.root (Ne.symm notRoot) good.tree.top 2) fun i live y j leads dir => ?_
  have inL := removal.sub live
  have old : child s.stores.pool i y = some j → j ≠ k → Special s'.stores.pool j i ∨ (i ∈ L ∧
      child s.stores.pool i y = some j ∧ isdir (s.stores.pool.cell j) ≠ 0 ∧
      (Special s.stores.pool j i → Special s'.stores.pool j i)) := fun was ne => by
    obtain ⟨liveJ, _, ok⟩ := good.tree.closed i inL y j was
    have dir' : isdir (s.stores.pool.cell j) ≠ 0 := by
      by_cases here : j = m
      · rw [here]
        exact located.ok.dir
      · rwa [(removal.same j liveJ ne here).cell_eq] at dir
    exact Or.inr ⟨inL, was, dir', special j liveJ ne (ok dir') i⟩
  by_cases atK : i = k
  · subst atK
    rw [child_empty (removal.node live).2] at leads
    exact nomatch leads
  by_cases here : i = m
  · subst here
    rw [removal.child_parent located.ok within hit notDot notDotdot] at leads
    split at leads
    next => exact nomatch leads
    next other =>
      refine old leads ?_
      rintro rfl
      exact other (good.tree.once i inL i inL y c j leads step).2
  · rw [removal.child_other good inL atK here] at leads
    refine old leads ?_
    rintro rfl
    exact here (good.tree.once i inL m located.live y c j leads step).1

end Located

/-- The special entries stay in order, when those of a new directory are. -/
theorem Effect.dotted (effect : Effect L s fl op L' fl' s') (good : Good s L fl) (dotted : Dotted L s.stores.pool)
    (new : ∀ path tail cs m c, op = .mkdir path tail → Located L s path cs m c → child s.stores.pool m c = Option.none →
      ∃ q, Made L s s' q m ((dnodeImage q m).take 128) c ∧ s'.errno = 0) :
    ∃ L', Dotted L' s'.stores.pool ∧ Good s' L' fl' := by
  have after := effect.good good
  cases effect with
  | none glance =>
    refine ⟨L, ?_, after⟩
    rw [glance.stores_eq]
    exact dotted
  | create located short absent made fresh file errno =>
    exact ⟨_, located.dotted_made good made absent fresh (fun dir => absurd file dir) dotted, after⟩
  | mkdir located short absent =>
    obtain ⟨q, made, errno⟩ := new _ _ _ _ _ rfl located absent
    have range := good.owned.node_range located.live
    refine ⟨_, located.dotted_made good made absent dnodeImage_fresh.1 (fun _ => ?_) dotted, made.good good located.live
      located.ok (located.find_none absent) located.last.nonempty short located.last.notDot located.last.notDotdot
      dnodeImage_fresh.1 errno⟩
    exact special_dnodeImage (made.node good located.live) (by have := made.upper; omega) (by omega)
  | unlink located leads file hit within removal cleared =>
    exact ⟨_, located.dotted_removal good removal leads within hit dotted, after⟩
  | rmdir located leads dir hit within removal =>
    exact ⟨_, located.dotted_removal good removal leads within hit dotted, after⟩
  | write located leads file change errno =>
    have live := (good.child_pos located.live leads).1
    exact ⟨L, change.dotted good live file dotted, after⟩
  | spill located leads file change errno spilled _ =>
    have live := (good.child_pos located.live leads).1
    have mid := change.good good live file errno
    exact ⟨L, spilled.dotted mid (change.dotted good live file dotted), after⟩
  | truncate located leads file change errno =>
    have live := (good.child_pos located.live leads).1
    exact ⟨L, change.dotted good live file dotted, after⟩

/-- The special entries are in order in every state of a run. -/
theorem run_dotted (run : Run step Permit (sfsInit disk) ops s) :
    ∃ L fl, Good s L fl ∧ Dotted L s.stores.pool := by
  refine run.invariant (I := fun s => ∃ L fl, Good s L fl ∧ Dotted L s.stores.pool) ?_ fun t op invariant permit => ?_
  · have initial := sfsInit_initial disk
    have root := initial.root
    have good := initial.good
    generalize sfsInit disk = s at *
    refine ⟨_, _, good, special_dnodeImage root (by decide) (by decide), fun k live c m leads => ?_⟩
    obtain rfl : k = 2 := live
    rw [child_dnodeImage root] at leads
    exact nomatch leads
  · obtain ⟨L, fl, good, dotted⟩ := invariant
    obtain ⟨L', fl', effect⟩ := good.step_effect permit
    obtain ⟨L'', dotted', good'⟩ := effect.dotted good dotted fun path tail cs m c onPath located absent => by
      subst onPath
      obtain ⟨⟨q, c', proper, short⟩, _, room⟩ := permit
      have same := render_inj (fun x member => (proper.plain x member).component)
        (fun x member => (located.plain x member).component) (proper.eq.symm.trans located.eq)
      obtain ⟨rfl, names⟩ := List.append_inj' same rfl
      obtain rfl : c' = c := by simpa using names
      obtain ⟨q, _, _, errno, made, _⟩ := sfsMkdir_new good proper short room located.walks absent
      exact ⟨q, made, errno⟩
    exact ⟨L'', fl', good', dotted'⟩

end Sfs
