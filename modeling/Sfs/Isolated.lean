import Sfs.Files
import Sfs.Isolation
import Sfs.Rollback

namespace Sfs

/-- The request is one of those that change something, and names `p`. -/
def WorksOn (p : Path) : Op → Prop
  | .create path _ | .mkdir path _ | .unlink path _ | .rmdir path _ | .write path _ _ _ | .truncate path _ =>
    path = render p
  | _ => False

/-- The request removes a directory that `p` is below. -/
def Uproots (p : Path) (op : Op) : Prop := ∃ d tail, op = .rmdir (render d) tail ∧ d <+: p

/-- A permitted request that does not name `p`. -/
structure Elsewhere (p : Path) (s : State) (op : Op) : Prop extends Permit s op where
  other : ¬ WorksOn p op

variable {L L' : Set Nat} {s s' : State} {fl fl' : List Nat} {k m n : Nat} {c : List UInt8} {cs p : Path} {tail : Bytes}
  {op : Op} {ops more : List Op} {disk : Bytes}

theorem avoids_of (other : ¬ WorksOn p op) (above : ¬ Uproots p op) : Avoids p op := by
  cases op with
  | rmdir path tail => exact fun d same below => above ⟨d, tail, by rw [same], below⟩
  | unlink => exact other
  | write => exact other
  | truncate => exact other
  | _ => trivial

/-- A new entry leads nowhere but to its own name. -/
theorem Located.gone_made {q : Nat} {x : Bytes} {path : CPath} (located : Located L s path cs m c) (good : Good s L fl)
    (nothing : child s.stores.pool m c = none) (made : Made L s s' q m x c) (fresh : Fresh x q) (ne : path ≠ render p)
    (absent : walk (child s.stores.pool) 2 p = none) : walk (child s'.stores.pool) 2 p = none := by
  by_cases below : cs ++ [c] <+: p
  · obtain ⟨rest, rfl⟩ := below
    cases rest with
    | nil => exact absurd located.eq (by rwa [List.append_nil] at ne)
    | cons y rest =>
      rw [Walk.append, located.walk_new good made nothing, Option.bind_some, walk,
        made.child_new good located.live fresh, Option.bind_none]
  · exact (located.walk_made good made nothing below).trans absent

theorem Located.gone_removal {j r : Nat} {path : CPath} (located : Located L s path cs m c) (good : Good s L fl)
    (leads : child s.stores.pool m c = some j) (hit : entName s.stores.pool m r = c)
    (within : r < size (s.stores.pool.cell m)) (removal : Removal L L' s s' j m r fl')
    (absent : walk (child s.stores.pool) 2 p = none) : walk (child s'.stores.pool) 2 p = none := by
  by_cases below : cs ++ [c] <+: p
  · exact walk_below_none (located.walk_gone good removal leads within hit) below
  · exact (located.walk_removal good removal leads within hit below).trans absent

/-- What is not there does not come back under requests that do not name it. -/
theorem Good.stays_gone (good : Good s L fl) (effect : Effect L s fl op L' fl' s') (other : ¬ WorksOn p op)
    (absent : walk (child s.stores.pool) 2 p = none) : walk (child s'.stores.pool) 2 p = none := by
  cases effect with
  | none glance => rwa [glance.stores_eq]
  | create located _ nothing new fresh => exact located.gone_made good nothing new fresh other absent
  | mkdir located _ nothing new fresh => exact located.gone_made good nothing new fresh other absent
  | unlink located leads _ hit within removal => exact located.gone_removal good leads hit within removal absent
  | rmdir located leads _ hit within removal => exact located.gone_removal good leads hit within removal absent
  | write located leads file change =>
    exact (change.walk_eq good (good.child_pos located.live leads).1 file).trans absent
  | spill located leads file change errno spilled =>
    have live := (good.child_pos located.live leads).1
    exact (spilled.walk_eq (change.good good live file errno)).trans ((change.walk_eq good live file).trans absent)
  | truncate located leads file change =>
    exact (change.walk_eq good (good.child_pos located.live leads).1 file).trans absent

/-- The removal of a directory takes what is below it away. -/
theorem Good.uprooted (good : Good s L fl) (permit : Permit s op) (above : Uproots p op) (plain : ∀ x ∈ p, Plain x)
    (reach : walk (child s.stores.pool) 2 p = some k) : walk (child (step s op).stores.pool) 2 p = none := by
  obtain ⟨d, tail, rfl, below⟩ := above
  obtain ⟨cs, c, proper, notFile⟩ := permit.vfs
  obtain ⟨m, located, _⟩ := good.located proper
  obtain rfl := render_inj_plain (fun x member => plain x (below.subset member)) located.plain located.eq
  obtain ⟨rest, rfl⟩ := below
  have there := reach
  rw [Walk.append, located.walk_child] at there
  obtain ⟨j, leads, _⟩ := Option.bind_eq_some_iff.mp there
  obtain ⟨_, _, ⟨r, hit, within, removal⟩, _⟩ :=
    sfsRmdir_removed good proper tail notFile located.walks located.live located.ok leads
  exact walk_below_none (located.walk_gone good removal leads within hit) (List.prefix_append _ _)

/-- After requests that do not name the file at `p` it is either untouched, or
gone with a directory above it. -/
theorem run_steady (good : Good s L fl) (live : k ∈ L) (walks : walk (child s.stores.pool) 2 p = some k)
    (file : isdir (s.stores.pool.cell k) = 0) (plain : ∀ x ∈ p, Plain x) (rest : Run step (Elsewhere p) s more s') :
    ∃ L' fl', Good s' L' fl' ∧ ((∀ op ∈ more, ¬ Uproots p op) ∧ Steady p k s s' L' ∨
      (∃ op ∈ more, Uproots p op) ∧ walk (child s'.stores.pool) 2 p = none) := by
  induction rest with
  | nil => exact ⟨L, fl, good, Or.inl ⟨List.forall_mem_nil _, live, walks, file, .of_stores rfl k⟩⟩
  | @next ops t op _ elsewhere ih =>
    obtain ⟨L₁, fl₁, good₁, ⟨none, steady⟩ | ⟨⟨op', member, above⟩, gone⟩⟩ := ih
    · by_cases above : Uproots p op
      · obtain ⟨L₂, fl₂, effect⟩ := good₁.step_effect elsewhere.toPermit
        exact ⟨L₂, fl₂, effect.good good₁, Or.inr ⟨⟨op, List.mem_append_right _ (List.mem_singleton_self op), above⟩,
          good₁.uprooted elsewhere.toPermit above plain steady.walks⟩⟩
      · obtain ⟨L₂, fl₂, good₂, steady₂⟩ := steady.next good₁ elsewhere.toPermit (avoids_of elsewhere.other above) file
          (good.owned.fits k live)
        refine ⟨L₂, fl₂, good₂, Or.inl ⟨fun op' member => ?_, steady₂⟩⟩
        rcases List.mem_append.mp member with before | last
        · exact none op' before
        · rwa [List.mem_singleton.mp last]
    · obtain ⟨L₂, fl₂, effect⟩ := good₁.step_effect elsewhere.toPermit
      exact ⟨L₂, fl₂, effect.good good₁, Or.inr ⟨⟨op', List.mem_append_left _ member, above⟩,
        good₁.stays_gone effect elsewhere.other gone⟩⟩

/-- What requests that do not name a file do to it: nothing, unless one of them
removes a directory above it. -/
theorem run_isolated_iff (run : Run step Permit (sfsInit disk) ops s) (leads : Leads s p k)
    (file : isdir (inodeLoad s k) = 0) (rest : Run step (Elsewhere p) s more s') :
    Undisturbed p k s s' ↔ ∀ op ∈ more, ¬ Uproots p op := by
  obtain ⟨L, fl, good⟩ := run_good (sfsInit_initial disk).good run
  have walks := good.tree.reached good.owned leads
  obtain ⟨live, _⟩ := good.tree.reach walks
  have loaded : inodeLoad s k = s.stores.pool.cell k := good.owned.inodeLoad_eq live
  rw [loaded] at file
  obtain ⟨L', fl', good', ⟨none, steady⟩ | ⟨⟨op, member, above⟩, gone⟩⟩ := run_steady good live walks file leads.plain rest
  · exact iff_of_true (steady.undisturbed good good' live file leads.plain) none
  · refine iff_of_false (fun undisturbed => ?_) fun none => none op member above
    have there := good'.tree.reached good'.owned undisturbed.leads
    rw [gone] at there
    exact Option.some_ne_none k there.symm

/-- The file `/a` after the run that makes `/b`. -/
theorem run_isolated_iff_first : ∃ k,
    Undisturbed [[97]] k firstState (step firstState (.create (render [[98]]) Bytes.zero)) := by
  obtain ⟨k, first⟩ := firstState_firstFile
  have file : isdir (inodeLoad firstState k) = 0 := by
    rw [first.node.owned.inodeLoad_eq FirstNode.live]
    exact first.node.file
  have other : ¬ WorksOn [[97]] (.create (render [[98]]) Bytes.zero) := fun same =>
    absurd (render_inj_plain (by simpa using plain_b) (by simpa using plain_a) same) (by decide)
  refine ⟨k, (run_isolated_iff (run_first.mono fun _ _ => Ready.permit) first.node.reached file
    (.next .nil ⟨first.permit_create plain_b (by decide) Bytes.zero, other⟩)).mpr fun op member above => ?_⟩
  obtain ⟨d, tail, same, _⟩ := above
  rw [List.nil_append, List.mem_singleton] at member
  rw [member] at same
  cases same

/-- A file in the last of the directories. -/
theorem Nested.file (nested : Nested s L fl n m) (free : n < 1021) :
    Permit s (.create (render (List.replicate n [97] ++ [[98]])) Bytes.zero) ∧ ∃ q L',
      Good (step s (.create (render (List.replicate n [97] ++ [[98]])) Bytes.zero)) L' fl ∧
      walk (child (step s (.create (render (List.replicate n [97] ++ [[98]])) Bytes.zero)).stores.pool) 2
        (List.replicate n [97] ++ [[98]]) = some q ∧
      isdir ((step s (.create (render (List.replicate n [97] ++ [[98]])) Bytes.zero)).stores.pool.cell q) = 0 := by
  have good := nested.good
  have located := nested.located plain_b
  have proper := nested.proper plain_b
  have absent : child s.stores.pool m [98] = none := nested.absent_last
  have spare := nested.spare
  have need := nested.need (.create (render (List.replicate n [97] ++ [[98]])) Bytes.zero) plain_b .create rfl
  have room : inodeNeed s (.create (render (List.replicate n [97] ++ [[98]])) Bytes.zero) ≤ spareInodes s := by omega
  refine ⟨⟨⟨_, _, proper, by decide⟩, trivial, Or.inr room⟩, ?_⟩
  obtain ⟨q, _, _, errno, made, _⟩ := sfsCreate_new good proper (by decide) (Or.inr room) nested.walks absent
  rw [step, Op.run]
  generalize (sfsCreate s (render (List.replicate n [97] ++ [[98]])) Bytes.zero).2 = s' at *
  refine ⟨q, _, located.made_good good (by decide) absent made fnodeImage_fresh.1 errno,
    located.walk_new good made absent, ?_⟩
  rw [made.node good located.live]
  exact fnodeImage_fresh.2

/-- The state after the directory `/a` and the file `/a/b` have been made. -/
def belowState : State :=
  step (step (sfsInit Bytes.zero) (.mkdir (render [[97]]) Bytes.zero)) (.create (render [[97], [98]]) Bytes.zero)

/-- The directory `/a` is removed with the file `/a/b` in it. -/
theorem rmdir_uproots : ∃ k,
    Run step Vfs (sfsInit Bytes.zero) [.mkdir (render [[97]]) Bytes.zero, .create (render [[97], [98]]) Bytes.zero]
      belowState ∧
    Leads belowState [[97], [98]] k ∧ isdir (inodeLoad belowState k) = 0 ∧
    Run step (fun s op => Vfs s op ∧ ¬ WorksOn [[97], [98]] op) belowState [.rmdir (render [[97]]) Bytes.zero]
      (step belowState (.rmdir (render [[97]]) Bytes.zero)) ∧
    ¬ Undisturbed [[97], [98]] k belowState (step belowState (.rmdir (render [[97]]) Bytes.zero)) := by
  obtain ⟨made, L, m, nested⟩ := (sfsInit_initial Bytes.zero).nested.next (by decide)
  obtain ⟨created, k, L', good, walks, file⟩ := nested.file (by decide)
  have run : Run step Vfs (sfsInit Bytes.zero)
      [.mkdir (render [[97]]) Bytes.zero, .create (render [[97], [98]]) Bytes.zero] belowState :=
    (Run.nil.next made.vfs).next created.vfs
  change Good belowState L' _ at good
  change walk (child belowState.stores.pool) 2 [[97], [98]] = some k at walks
  change isdir (belowState.stores.pool.cell k) = 0 at file
  generalize belowState = s at *
  have plain : ∀ x ∈ [[97], [98]], Plain x := by
    simpa using ⟨plain_a, plain_b⟩
  have leads := (good.tree.leads_iff good.owned plain).mpr walks
  obtain ⟨_, dir⟩ := leads.parents [[97]] [98] [] rfl
  have permit : Permit s (.rmdir (render [[97]]) Bytes.zero) :=
    ⟨⟨[], [97], good.tree.proper_top good.owned plain_a, fun both => dir both.2⟩, trivial, Or.inr (Nat.zero_le _)⟩
  have other : ¬ WorksOn [[97], [98]] (.rmdir (render [[97]]) Bytes.zero) := fun same =>
    absurd (render_inj_plain (by simpa using plain_a) plain same) (by decide)
  refine ⟨k, run, leads, ?_, .next .nil ⟨permit.vfs, other⟩, fun undisturbed => ?_⟩
  · rw [good.owned.inodeLoad_eq (good.tree.reach walks).1]
    exact file
  · obtain ⟨L₂, fl₂, effect⟩ := good.step_effect permit
    have good₂ := effect.good good
    have gone := good.uprooted permit ⟨[[97]], _, rfl, [[98]], rfl⟩ plain walks
    have there := good₂.tree.reached good₂.owned undisturbed.leads
    exact Option.some_ne_none k (there.symm.trans gone)

end Sfs
