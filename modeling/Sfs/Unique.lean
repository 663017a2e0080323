import Sfs.Names
import Sfs.Places
import Sfs.Scan

namespace Sfs

/-- The request removes path `p` or a directory above it. -/
def Drops (op : Op) (p : Path) : Prop :=
  ∃ q tail, q <+: p ∧ (∀ c ∈ q, Plain c) ∧ (op = .unlink (render q) tail ∨ op = .rmdir (render q) tail)

/-- A request for a name that leaves path `p`. -/
structure Spares (p : Path) (s : State) (op : Op) : Prop extends Served s op where
  apart : ¬ Drops op p

/-- The names in a directory are distinct, and a file that has been made is
found under its path as long as the requests leave it. -/
structure Findable (s : State) : Prop where
  distinct : ∀ k, InTree s k → isdir (inodeLoad s k) ≠ 0 → (listedRows s k).Distinct
  made : ∀ p tail ops s', (∀ c ∈ p, Plain c) → Served s (.create (render p) tail) →
    (sfsCreate s (render p) tail).1 = 0 → Run step (Spares p) (step s (.create (render p) tail)) ops s' → 0 < namei s' p

variable {L L' : Set Nat} {s s' : State} {fl fl' : List Nat} {k n : Nat} {p q pa : Path} {op : Op} {ops : List Op}
  {request : NameRequest (List UInt8)} {answer : NameAnswer} {c : List UInt8} {disk tail : Bytes}

theorem drops_of_asked (asked : nameRequest p op = some (.drop q)) (proper : Proper s op.path p) (above : p <+: pa) :
    Drops op pa := by
  cases op with
  | unlink path tail => exact ⟨p, tail, above, proper.plain, Or.inl (by rw [← proper.eq]; rfl)⟩
  | rmdir path tail => exact ⟨p, tail, above, proper.plain, Or.inr (by rw [← proper.eq]; rfl)⟩
  | _ => simp [nameRequest] at asked

/-- A path that is there stays. -/
theorem NameStep.entry_kept (named : NameStep s op p request answer) (spared : ¬ Drops op pa)
    (there : (namesOf s.stores.pool).entry pa ≠ none) :
    (namesOf (step s op).stores.pool).entry pa = (namesOf s.stores.pool).entry pa := by
  have asked := named.asked
  have path := nameRequest_path asked
  by_cases above : p <+: pa
  · cases request with
    | make q d =>
      obtain rfl : q = p := path
      rw [named.names.make_present (Namespace.above_there there above)]
    | drop q => exact absurd (drops_of_asked asked named.proper above) spared
  · exact named.names.entry_eq (path ▸ above)

/-- A path that is there is found. -/
theorem Good.namei_pos (good : Good s L fl) (plain : ∀ c ∈ pa, Plain c) (there : (namesOf s.stores.pool).entry pa ≠ none) :
    0 < namei s pa := by
  rw [entry_eq] at there
  cases reach : walk (child s.stores.pool) 2 pa with
  | none => exact absurd (by rw [reach]; rfl) there
  | some k =>
    have range := good.owned.node_range (good.tree.reach reach).1
    rw [namei_eq good.owned good.tree plain (good.tree.parents_of_walk good.owned plain reach), reach, toInum]
    omega

theorem Good.distinct (good : Good s L fl) (inTree : InTree s k) (dir : isdir (inodeLoad s k) ≠ 0) :
    (listedRows s k).Distinct := by
  obtain ⟨live, ok⟩ := good.inTree inTree
  rw [good.owned.inodeLoad_eq live] at dir
  exact (good.owned.listed_agree live dir).distinct (ok dir).distinct

/-- In a run of requests with names that fit, names are distinct and files are found. -/
theorem run_findable (run : Run step Served (sfsInit disk) ops s) : Findable s := by
  obtain ⟨L, fl, good⟩ := run_served run
  refine ⟨fun k inTree dir => good.distinct inTree dir, fun p tail more s' plain served zero rest => ?_⟩
  have there : ∃ L' fl', Good s' L' fl' ∧ (namesOf s'.stores.pool).entry p ≠ none := by
    refine rest.invariant (I := fun t => ∃ L' fl', Good t L' fl' ∧ (namesOf t.stores.pool).entry p ≠ none) ?_
      fun t op holds spares => ?_
    · obtain ⟨q, request, answer, named, L', fl', good'⟩ := good.name_step served
      obtain rfl : p = q := render_inj (fun c member => (plain c member).component)
        (fun c member => (named.proper.plain c member).component) named.proper.eq
      obtain rfl : .make p false = request := Option.some.inj named.asked
      have names := named.names
      rw [resultOf_done (named.result.symm.trans zero)] at names
      obtain ⟨i, there⟩ := names.made_entry
      exact ⟨L', fl', good', by rw [there]; exact Option.some_ne_none _⟩
    · obtain ⟨L', fl', good', there⟩ := holds
      obtain ⟨q, request, answer, named, L'', fl'', good''⟩ := good'.name_step spares.toServed
      refine ⟨L'', fl'', good'', ?_⟩
      rw [named.entry_kept spares.apart there]
      exact there
  obtain ⟨L', fl', good', there⟩ := there
  exact good'.namei_pos plain there

/-- The file `/a` is found after a directory has been asked for under its name. -/
theorem run_findable_first : 0 < namei (step firstState (.mkdir (render [[97]]) Bytes.zero)) [[97]] := by
  have findable := run_findable (.nil : Run step Served (sfsInit Bytes.zero) [] _)
  obtain ⟨k, first⟩ := firstState_firstFile
  have node := first.node
  have found : (pathToInum firstState (render [[97]])).1.inum > 0 := by
    rw [first.found]
    have range := first.good.owned.node_range FirstFile.live
    omega
  have served : Served firstState (.mkdir (render [[97]]) Bytes.zero) := by
    refine ⟨⟨[[97]], node.tree.proper_top node.owned node.plain, by decide⟩, Or.inr ?_⟩
    rw [inodeNeed, if_pos found]
    exact Nat.zero_le _
  have apart : ¬ Drops (.mkdir (render [[97]]) Bytes.zero) [[97]] := by
    rintro ⟨q, tail, _, _, same | same⟩ <;> cases same
  obtain ⟨_, zero, _⟩ := create_made Bytes.zero Bytes.zero plain_a
  exact findable.made [[97]] Bytes.zero [.mkdir (render [[97]]) Bytes.zero] _ (by simpa using plain_a) served_first zero
    (.next .nil ⟨served, apart⟩)

/-- A file with a name of 14 bytes that has been made is not found. -/
theorem long_name_lost : Proper (sfsInit Bytes.zero) (render [List.replicate 14 97]) [List.replicate 14 97] ∧
    (sfsCreate (sfsInit Bytes.zero) (render [List.replicate 14 97]) Bytes.zero).1 = 0 ∧
    namei (step (sfsInit Bytes.zero) (.create (render [List.replicate 14 97]) Bytes.zero)) [List.replicate 14 97] = -1 := by
  have plain : Plain (List.replicate 14 97) := ⟨by decide, by decide, by decide, by decide, by decide⟩
  have initial := sfsInit_initial Bytes.zero
  have good := initial.good
  have ok : DirOk (sfsInit Bytes.zero).stores.pool 2 := good.tree.top
  have empty : ∀ c, child (sfsInit Bytes.zero).stores.pool 2 c = none := fun c => child_dnodeImage initial.root
  have absent := empty (List.replicate 13 97)
  rw [child_dir ok.dir (by decide) (by decide)] at absent
  obtain ⟨k, zero, errno, made⟩ := create_made Bytes.zero Bytes.zero plain
  refine ⟨good.tree.proper_top good.owned plain, zero, ?_⟩
  rw [step, Op.run]
  generalize sfsInit Bytes.zero = s at *
  generalize (sfsCreate s (render [List.replicate 14 97]) Bytes.zero).2 = s' at *
  have cut : (List.replicate 14 97).take 13 = List.replicate 13 (97 : UInt8) := by decide
  rw [cut] at made
  have good' := made.good good good.tree.root ok absent (by decide) (by decide) (by decide) (by decide)
    fnodeImage_fresh.1 errno
  have gone : child s'.stores.pool 2 (List.replicate 14 97) = none := by
    rw [made.child_parent good good.tree.root ok absent (by decide) (by decide), if_neg (by decide), empty]
  obtain ⟨_, found, _⟩ := pathToInum_spec [] good'.owned good'.tree (by simp) plain rfl good'.tree.top.dir
  rw [gone, List.nil_append] at found
  rw [namei, found]
  rfl

end Sfs
