import Sfs.Live
import Sfs.Reach
import Sfs.Lib.Namespace

namespace Sfs

/-- What a node stands for. -/
def named (p : Pool Bytes) (k : Nat) : Named Nat := ⟨k, decide (isdir (p.cell k) ≠ 0)⟩

/-- The paths along the entries. -/
def namesOf (p : Pool Bytes) : Namespace Nat (List UInt8) where
  entry q := (walk (child p) 2 q).map (named p)
  above q x there := by
    cases reach : walk (child p) 2 q with
    | none =>
      rw [Walk.concat, reach] at there
      exact absurd rfl there
    | some m =>
      refine ⟨named p m, rfl, ?_⟩
      by_contra file
      rw [Walk.concat, reach, Option.bind_some, child_file] at there
      · exact there rfl
      · simpa [named] using file

/-- What a request asks of the names. -/
def nameRequest (q : Path) : Op → Option (NameRequest (List UInt8))
  | .create _ _ => some (.make q false)
  | .mkdir _ _ => some (.make q true)
  | .unlink _ _ | .rmdir _ _ => some (.drop q)
  | _ => none

/-- The result of a request by what it answers. -/
def resultOf : NameAnswer → Int
  | .done => 0
  | .present => -EEXIST
  | .absent => -ENOENT

/-- What the VFS promises of a request for a name, and names that fit into an entry. -/
def NameVfs (s : State) : Op → Prop
  | .create path _ | .mkdir path _ => ∃ q, Proper s path q ∧ ∀ c ∈ q, c.length ≤ 13
  | .unlink path _ => ∃ q, Proper s path q ∧ ¬ DirAt s q
  | .rmdir path _ => ∃ q, q ≠ [] ∧ Proper s path q ∧ ¬ FileAt s q
  | _ => False

/-- A request for a name, for which no inode is missing. -/
structure Served (s : State) (op : Op) : Prop where
  vfs : NameVfs s op
  room : Room s.stores.pool (inodeNeed s op) (step s op)

/-- The request for path `p` is one step of the namespace. -/
structure NameStep (s : State) (op : Op) (p : Path) (request : NameRequest (List UInt8)) (answer : NameAnswer) :
    Prop where
  proper : Proper s op.path p
  asked : nameRequest p op = some request
  result : (op.run s).1 = resultOf answer
  names : (namesOf s.stores.pool).Step request answer (namesOf (step s op).stores.pool)
  new : ∀ d, request = .make p d → answer = .done →
    walk (child (step s op).stores.pool) 2 p = some (freeInodePop s).1

variable {L : Set Nat} {s s' : State} {fl fl' : List Nat} {k m n q r : Nat} {x : Bytes} {c : List UInt8} {cs pa : Path}
  {path : CPath} {op : Op}

theorem entry_eq (p : Pool Bytes) (q : Path) : (namesOf p).entry q = (walk (child p) 2 q).map (named p) := rfl

theorem entry_some (reach : walk (child s.stores.pool) 2 pa = some k) :
    (namesOf s.stores.pool).entry pa = some (named s.stores.pool k) := by
  rw [entry_eq, reach, Option.map_some]

theorem entry_none (reach : walk (child s.stores.pool) 2 pa = none) : (namesOf s.stores.pool).entry pa = none := by
  rw [entry_eq, reach, Option.map_none]

/-- Names that lead where they did stand for what they did. -/
theorem entry_congr (same : walk (child s'.stores.pool) 2 pa = walk (child s.stores.pool) 2 pa)
    (kind : ∀ j, walk (child s.stores.pool) 2 pa = some j →
      isdir (s'.stores.pool.cell j) = isdir (s.stores.pool.cell j)) :
    (namesOf s'.stores.pool).entry pa = (namesOf s.stores.pool).entry pa := by
  cases reach : walk (child s.stores.pool) 2 pa with
  | none => rw [entry_none reach, entry_none (same.trans reach)]
  | some j => rw [entry_some reach, entry_some (same.trans reach), named, named, kind j reach]

namespace Located

variable (located : Located L s path cs m c) (good : Good s L fl)

include located

theorem isDir : (namesOf s.stores.pool).IsDir cs :=
  ⟨named s.stores.pool m, entry_some located.walks, by simpa [named] using located.ok.dir⟩

include good

/-- A new node is a new name. -/
theorem names_made (made : Made L s s' q m x c) (fresh : Fresh x q) (absent : child s.stores.pool m c = none) :
    (namesOf s.stores.pool).Step (.make (cs ++ [c]) (decide (isdir x ≠ 0))) .done (namesOf s'.stores.pool) ∧
      walk (child s'.stores.pool) 2 (cs ++ [c]) = some q := by
  have free : (namesOf s.stores.pool).entry (cs ++ [c]) = none := entry_none (located.walk_child.trans absent)
  have node := made.node good located.live
  have leads := located.walk_new good made absent
  have new : ∀ pb n, (namesOf s.stores.pool).entry pb = some n → n.id ≠ q := fun pb n there => by
    obtain ⟨j, reach, rfl⟩ := Option.map_eq_some_iff.mp there
    exact fun same => made.new good (same ▸ (good.tree.reach reach).1)
  have names : namesOf s'.stores.pool =
      (namesOf s.stores.pool).add cs c ⟨q, decide (isdir x ≠ 0)⟩ located.isDir free := by
    refine Namespace.ext (funext fun pb => ?_)
    by_cases below : cs ++ [c] <+: pb
    · obtain ⟨rest, rfl⟩ := below
      cases rest with
      | nil => rw [List.append_nil, Namespace.add_self, entry_some leads, named, node]
      | cons y rest =>
        have nothing : walk (child s'.stores.pool) 2 (cs ++ [c] ++ y :: rest) = none := by
          rw [Walk.append, leads, Option.bind_some, walk, made.child_new good located.live fresh, Option.bind_none]
        rw [entry_none nothing, Namespace.add_other (by simp), Namespace.absent_below free (List.prefix_append _ _)]
    · have other : pb ≠ cs ++ [c] := fun same => below (same ▸ List.prefix_refl _)
      rw [Namespace.add_other other]
      exact entry_congr (located.walk_made good made absent below) fun j reach =>
        made.isdir_eq good located.live (good.tree.reach reach).1
  refine ⟨?_, leads⟩
  rw [names]
  exact .made _ free new

/-- With an entry a name is gone, and all that was below it. -/
theorem names_removal {L' : Set Nat} (removal : Removal L L' s s' k m r fl') (leads : child s.stores.pool m c = some k)
    (within : r < size (s.stores.pool.cell m)) (hit : entName s.stores.pool m r = c) :
    (namesOf s.stores.pool).Step (.drop (cs ++ [c])) .done (namesOf s'.stores.pool) := by
  have there : walk (child s.stores.pool) 2 (cs ++ [c]) = some k := located.walk_child.trans leads
  have above : walk (child s'.stores.pool) 2 cs = some m :=
    (located.walk_removal good removal leads within hit (not_below cs c)).trans located.walks
  have gone : walk (child s'.stores.pool) 2 (cs ++ [c]) = none := by
    rw [Walk.concat, above, Option.bind_some, removal.child_parent located.ok within hit located.last.notDot
      located.last.notDotdot, if_pos rfl]
  have names : namesOf s'.stores.pool = (namesOf s.stores.pool).remove (cs ++ [c]) := by
    refine Namespace.ext (funext fun pb => ?_)
    by_cases below : cs ++ [c] <+: pb
    · rw [Namespace.remove_below below, entry_none (walk_below_none gone below)]
    · rw [Namespace.remove_other below]
      refine entry_congr (located.walk_removal good removal leads within hit below) fun j reach => ?_
      refine removal.isdir_eq (good.tree.reach reach).1 ?_
      rintro rfl
      exact below (good.tree.unique there reach ▸ List.prefix_refl _)
  rw [names]
  exact .dropped (by rw [entry_some there]; exact Option.some_ne_none _)

end Located

theorem pathToInum_root (s : State) : (pathToInum s (render [])).1 = ⟨2, 2⟩ := by
  simp [pathToInum, render, joinSlash, pathWalk]

/-- A request that finds its path there, or finds nothing to remove, changes no name. -/
theorem NameStep.unchanged {p : Path} {request : NameRequest (List UInt8)} {answer : NameAnswer}
    (proper : Proper s op.path p) (asked : nameRequest p op = some request)
    (result : (op.run s).1 = resultOf answer) (glance : Glance s (step s op))
    (names : (namesOf s.stores.pool).Step request answer (namesOf s.stores.pool)) (notDone : answer ≠ .done) :
    NameStep s op p request answer := by
  refine ⟨proper, asked, result, ?_, fun d _ done => absurd done notDone⟩
  rw [glance.stores_eq]
  exact names

theorem present_ne_done : NameAnswer.present ≠ .done := by
  intro same
  cases same

theorem absent_ne_done : NameAnswer.absent ≠ .done := by
  intro same
  cases same

theorem root_there (s : State) : (namesOf s.stores.pool).entry [] ≠ none := by
  rw [entry_eq]
  exact Option.some_ne_none _

namespace Located

variable (located : Located L s op.path cs m c) (good : Good s L fl) (proper : Proper s op.path (cs ++ [c]))

include located good proper

/-- A name is asked for. -/
theorem make_step {d : Bool} (asked : nameRequest (cs ++ [c]) op = some (.make (cs ++ [c]) d)) (short : c.length ≤ 13)
    (present : ∀ k, child s.stores.pool m c = some k → (op.run s).1 = -EEXIST ∧ Glance s (step s op))
    (absent : child s.stores.pool m c = none → ∃ q x, (freeInodePop s).1 = q ∧ (op.run s).1 = 0 ∧
      (step s op).errno = 0 ∧ Made L s (step s op) q m x c ∧ Fresh x q ∧ decide (isdir x ≠ 0) = d) :
    ∃ request answer, NameStep s op (cs ++ [c]) request answer ∧ ∃ L' fl', Good (step s op) L' fl' := by
  cases reach : child s.stores.pool m c with
  | none =>
    obtain ⟨q, x, popped, zero, errno, made, fresh, kind⟩ := absent reach
    obtain ⟨names, leads⟩ := located.names_made good made fresh reach
    rw [kind] at names
    exact ⟨_, .done, ⟨proper, asked, zero, names, fun _ _ _ => by rw [popped]; exact leads⟩,
      _, _, located.made_good good short reach made fresh errno⟩
  | some k =>
    obtain ⟨result, glance⟩ := present k reach
    have there : (namesOf s.stores.pool).entry (cs ++ [c]) ≠ none := by
      rw [entry_some (located.walk_child.trans reach)]
      exact Option.some_ne_none _
    exact ⟨_, .present, .unchanged proper asked result glance (.present there) present_ne_done, L, fl,
      good.glance glance⟩

/-- A name is to go. -/
theorem drop_step (asked : nameRequest (cs ++ [c]) op = some (.drop (cs ++ [c])))
    (absent : child s.stores.pool m c = none → (op.run s).1 = -ENOENT ∧ Glance s (step s op))
    (present : ∀ k, child s.stores.pool m c = some k → ∃ L' fl' r, (op.run s).1 = 0 ∧
      entName s.stores.pool m r = c ∧ r < size (s.stores.pool.cell m) ∧ Removal L L' s (step s op) k m r fl') :
    ∃ request answer, NameStep s op (cs ++ [c]) request answer ∧ ∃ L' fl', Good (step s op) L' fl' := by
  cases reach : child s.stores.pool m c with
  | none =>
    obtain ⟨result, glance⟩ := absent reach
    exact ⟨_, .absent, .unchanged proper asked result glance
      (.absent (entry_none (located.walk_child.trans reach))) absent_ne_done, L, fl, good.glance glance⟩
  | some k =>
    obtain ⟨L', fl', r, zero, hit, within, removal⟩ := present k reach
    exact ⟨_, .done, ⟨proper, asked, zero, located.names_removal good removal reach within hit,
      fun _ make => by cases make⟩, _, _, removal.good good located.live (located.ne_parent good reach) located.ok within hit
      located.last.notDot located.last.notDotdot reach⟩

end Located

theorem LinkOutcome.present {isDir : Prop} {r : Int} (outcome : LinkOutcome L s m c isDir r s')
    (reach : child s.stores.pool m c = some k) : r = -EEXIST ∧ Glance s s' := by
  cases outcome with
  | «exists» _ glance => exact ⟨rfl, glance⟩
  | made absent => cases absent.symm.trans reach

theorem UnlinkOutcome.gone {r : Int} (outcome : UnlinkOutcome L s m c fl r s') (absent : child s.stores.pool m c = none) :
    r = -ENOENT ∧ Glance s s' := by
  cases outcome with
  | absent _ glance => exact ⟨rfl, glance⟩
  | removed reach => cases absent.symm.trans reach

theorem UnlinkOutcome.present {r : Int} (outcome : UnlinkOutcome L s m c fl r s')
    (reach : child s.stores.pool m c = some k) : ∃ L' fl' i, r = 0 ∧ entName s.stores.pool m i = c ∧
      i < size (s.stores.pool.cell m) ∧ Removal L L' s s' k m i fl' := by
  cases outcome with
  | absent absent => cases absent.symm.trans reach
  | removed reach' _ hit within removal =>
    obtain rfl := Option.some.inj (reach'.symm.trans reach)
    exact ⟨_, _, _, rfl, hit, within, removal⟩

theorem RmdirOutcome.gone {r : Int} (outcome : RmdirOutcome L s m c fl r s') (absent : child s.stores.pool m c = none) :
    r = -ENOENT ∧ Glance s s' := by
  cases outcome with
  | absent _ glance => exact ⟨rfl, glance⟩
  | removed reach => cases absent.symm.trans reach

theorem RmdirOutcome.present {r : Int} (outcome : RmdirOutcome L s m c fl r s')
    (reach : child s.stores.pool m c = some k) : ∃ L' fl' i, r = 0 ∧ entName s.stores.pool m i = c ∧
      i < size (s.stores.pool.cell m) ∧ Removal L L' s s' k m i fl' := by
  cases outcome with
  | absent absent => cases absent.symm.trans reach
  | removed reach' _ hit within removal =>
    obtain rfl := Option.some.inj (reach'.symm.trans reach)
    exact ⟨_, _, _, rfl, hit, within, removal⟩

/-- A served request is one step of the namespace, and the invariants hold after it. -/
theorem Good.name_step (good : Good s L fl) (served : Served s op) : ∃ p request answer,
    NameStep s op p request answer ∧ ∃ L' fl', Good (step s op) L' fl' := by
  obtain ⟨vfs, room⟩ := served
  cases op with
  | create path tail =>
    obtain ⟨p, proper, short⟩ := vfs
    rcases List.eq_nil_or_concat p with rfl | ⟨cs, c, rfl⟩
    · have run : sfsCreate s path tail = (-EEXIST, _) := sfsCreate_present _ (by rw [proper.eq, pathToInum_root]; decide)
      have glance : Glance s (step s (.create path tail)) := by
        rw [step, Op.run, run]
        exact pathToInum_glance s path
      exact ⟨_, _, .present, .unchanged proper rfl (congrArg Prod.fst run) glance (.present (root_there s))
        present_ne_done, L, fl, good.glance glance⟩
    · rw [List.concat_eq_append] at proper short
      have short' := short c (by simp)
      obtain ⟨m, walks, live, ok, outcome⟩ := sfsCreate_spec good proper short' room
      have located : Located L s path cs m c := ⟨proper.eq, proper.plain, walks, live, ok⟩
      refine ⟨_, located.make_step good proper rfl short' (fun k => outcome.present) fun absent => ?_⟩
      obtain ⟨q, popped, zero, errno, made, _⟩ := sfsCreate_new good proper short' room walks absent
      obtain ⟨fresh, file⟩ := fnodeImage_fresh (q := q) (m := m)
      exact ⟨q, _, popped, zero, errno, made, fresh, by rw [file]; rfl⟩
  | mkdir path tail =>
    obtain ⟨p, proper, short⟩ := vfs
    rcases List.eq_nil_or_concat p with rfl | ⟨cs, c, rfl⟩
    · have run : sfsMkdir s path tail = (-EEXIST, _) := sfsMkdir_present _ (by rw [proper.eq, pathToInum_root]; decide)
      have glance : Glance s (step s (.mkdir path tail)) := by
        rw [step, Op.run, run]
        exact (Glance.of_fault _).trans (pathToInum_glance _ path)
      exact ⟨_, _, .present, .unchanged proper rfl (congrArg Prod.fst run) glance (.present (root_there s))
        present_ne_done, L, fl, good.glance glance⟩
    · rw [List.concat_eq_append] at proper short
      have short' := short c (by simp)
      obtain ⟨m, walks, live, ok, outcome⟩ := sfsMkdir_spec good proper short' room
      have located : Located L s path cs m c := ⟨proper.eq, proper.plain, walks, live, ok⟩
      refine ⟨_, located.make_step good proper rfl short' (fun k => outcome.present) fun absent => ?_⟩
      obtain ⟨q, popped, zero, errno, made, _⟩ := sfsMkdir_new good proper short' room walks absent
      obtain ⟨fresh, dir⟩ := dnodeImage_fresh (q := q) (m := m)
      exact ⟨q, _, popped, zero, errno, made, fresh, decide_eq_true dir⟩
  | unlink path tail =>
    obtain ⟨p, proper, notDir⟩ := vfs
    rcases List.eq_nil_or_concat p with rfl | ⟨cs, c, rfl⟩
    · exact absurd good.dirAt_root notDir
    · rw [List.concat_eq_append] at proper notDir
      obtain ⟨m, walks, live, ok, outcome⟩ := sfsUnlink_spec good proper tail notDir
      have located : Located L s path cs m c := ⟨proper.eq, proper.plain, walks, live, ok⟩
      exact ⟨_, located.drop_step good proper rfl outcome.gone fun k => outcome.present⟩
  | rmdir path tail =>
    obtain ⟨p, more, proper, notFile⟩ := vfs
    rcases List.eq_nil_or_concat p with rfl | ⟨cs, c, rfl⟩
    · exact absurd rfl more
    · rw [List.concat_eq_append] at proper notFile
      obtain ⟨m, walks, live, ok, outcome⟩ := sfsRmdir_spec good proper tail notFile
      have located : Located L s path cs m c := ⟨proper.eq, proper.plain, walks, live, ok⟩
      exact ⟨_, located.drop_step good proper rfl outcome.gone fun k => outcome.present⟩
  | _ => exact absurd vfs id

/-- A path below directories is found where its name is. -/
def Agrees (s : State) : Prop := ∀ q, (∀ c ∈ q, Plain c) → Parents s q →
  namei s q = toInum (((namesOf s.stores.pool).entry q).map Named.id)

/-- The request for path `p` does to the paths what the namespace says. -/
structure Refined (s : State) (op : Op) (p : Path) (request : NameRequest (List UInt8)) (answer : NameAnswer) : Prop
    extends NameStep s op p request answer where
  made : ∀ d, request = .make p d → (op.run s).1 = 0 →
    namei (step s op) p = (freeInodePop s).1 ∧ 0 < namei (step s op) p
  present : ∀ d, request = .make p d → 0 < namei s p → (op.run s).1 = -EEXIST
  removed : request = .drop p → (op.run s).1 = 0 → namei (step s op) p = -1
  apart : ∀ q, (∀ c ∈ q, Plain c) → Parents s q → ¬ p <+: q → namei (step s op) q = namei s q

theorem resultOf_done {answer : NameAnswer} (zero : resultOf answer = 0) : answer = .done := by
  cases answer with
  | done => rfl
  | present => exact absurd zero (by decide)
  | absent => exact absurd zero (by decide)

theorem Good.agrees (good : Good s L fl) : Agrees s := fun q plain parents => by
  rw [namei_eq good.owned good.tree plain parents, entry_eq]
  cases walk (child s.stores.pool) 2 q <;> rfl

/-- All above a path are directories of the namespace. -/
theorem Good.parents_iff (good : Good s L fl) (plain : ∀ c ∈ pa, Plain c) :
    Parents s pa ↔ ∀ pre y rest, pa = pre ++ y :: rest → (namesOf s.stores.pool).IsDir pre := by
  rw [good.tree.parents_iff good.owned plain]
  refine forall_congr' fun pre => forall_congr' fun y => forall_congr' fun rest => imp_congr_right fun split => ?_
  constructor
  · rintro ⟨k, reach, dir⟩
    exact ⟨_, entry_some reach, decide_eq_true dir⟩
  · rintro ⟨n, found, isDir⟩
    rw [entry_eq] at found
    obtain ⟨k, reach, rfl⟩ := Option.map_eq_some_iff.mp found
    exact ⟨k, reach, of_decide_eq_true isDir⟩

/-- The directories above a path stay if the path that is asked for is not one of them. -/
theorem NameStep.parents {p : Path} {request : NameRequest (List UInt8)} {answer : NameAnswer} {L' : Set Nat}
    (named : NameStep s op p request answer) (good : Good s L fl) (good' : Good (step s op) L' fl')
    (at' : request.path = p) (plain : ∀ c ∈ pa, Plain c) (parents : Parents s pa)
    (apart : ∀ pre y rest, pa = pre ++ y :: rest → ¬ p <+: pre) : Parents (step s op) pa := by
  rw [good'.parents_iff plain]
  rw [good.parents_iff plain] at parents
  intro pre y rest split
  obtain ⟨n, found, isDir⟩ := parents pre y rest split
  refine ⟨n, ?_, isDir⟩
  rw [named.names.entry_eq (at' ▸ apart pre y rest split)]
  exact found

theorem nameRequest_path {p : Path} {request : NameRequest (List UInt8)} (asked : nameRequest p op = some request) :
    request.path = p := by
  cases op <;> simp only [nameRequest, Option.some.injEq, reduceCtorEq] at asked
  all_goals
    subst asked
    rfl

/-- The invariants hold in every state of a run of requests for names. -/
theorem run_served {disk : Bytes} {ops : List Op} (run : Run step Served (sfsInit disk) ops s) : ∃ L fl, Good s L fl := by
  refine run.invariant (I := fun s => ∃ L fl, Good s L fl) ⟨_, _, (sfsInit_initial disk).good⟩ fun t op holds served => ?_
  obtain ⟨L, fl, good⟩ := holds
  obtain ⟨_, _, _, _, after⟩ := good.name_step served
  exact after

/-- Every run of requests for names follows the namespace. -/
theorem run_refines_names {disk : Bytes} {ops : List Op} (run : Run step Served (sfsInit disk) ops s) :
    Agrees s ∧ ∀ op, Served s op → ∃ p request answer, Refined s op p request answer := by
  obtain ⟨L, fl, good⟩ := run_served run
  refine ⟨good.agrees, fun op served => ?_⟩
  obtain ⟨p, request, answer, named, L', fl', good'⟩ := good.name_step served
  have at' := nameRequest_path named.asked
  have plain := named.proper.plain
  have parents := named.proper.parents
  refine ⟨p, request, answer, named, fun d make zero => ?_, fun d make there => ?_, fun drop zero => ?_,
    fun pa plain' parents' apart => ?_⟩
  · have leads := named.new d make (resultOf_done (named.result.symm.trans zero))
    obtain ⟨live, _⟩ := good'.tree.reach leads
    have range := good'.owned.node_range live
    rw [namei_eq good'.owned good'.tree plain (good'.tree.parents_of_walk good'.owned plain leads), leads, toInum]
    exact ⟨rfl, by omega⟩
  · rw [named.result]
    subst make
    rw [named.names.answer_present]
    · rfl
    · intro absent
      rw [good.agrees p plain parents, absent] at there
      exact absurd there (by decide)
  · have done := resultOf_done (named.result.symm.trans zero)
    have names := named.names
    rw [drop, done] at names
    have parents' : Parents (step s op) p := named.parents good good' at' plain parents fun pre y rest split below => by
      have shorter := below.length_le
      rw [split, List.length_append, List.length_cons] at shorter
      omega
    rw [good'.agrees p plain parents', names.dropped_entry]
    rfl
  · have parents'' : Parents (step s op) pa := named.parents good good' at' plain' parents' fun pre y rest split below =>
      apart (below.trans (split ▸ List.prefix_append _ _))
    rw [good'.agrees pa plain' parents'', good.agrees pa plain' parents', named.names.entry_eq (at' ▸ apart)]

theorem served_first : Served (sfsInit Bytes.zero) (.create (render [[97]]) Bytes.zero) := by
  have good := (sfsInit_initial Bytes.zero).good
  refine ⟨⟨[[97]], good.tree.proper_top good.owned plain_a, fun x member => ?_⟩, Or.inr ready_first.inodes⟩
  rw [List.mem_singleton.mp member]
  decide

/-- The file `/a` is made and removed. -/
theorem run_refines_names_first : ∃ p request answer,
    Refined firstState (.unlink (render [[97]]) Bytes.zero) p request answer := by
  obtain ⟨k, first⟩ := firstState_firstFile
  have node := first.node
  have vfs : NameVfs firstState (.unlink (render [[97]]) Bytes.zero) :=
    ⟨[[97]], node.tree.proper_top node.owned node.plain, node.not_dirAt⟩
  exact (run_refines_names (.next .nil served_first)).2 _ ⟨vfs, Or.inr (Nat.zero_le _)⟩

end Sfs
