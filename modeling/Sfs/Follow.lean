import Sfs.DirMap
import Sfs.Dots
import Sfs.Live

namespace Sfs

/-- The entry of directory `k` with the name `c`. -/
def entryOf (s : State) (k : Nat) (c : List UInt8) : Option Nat :=
  if isdir (inodeLoad s k) ≠ 0 then (listedRows s k).find c else none

/-- Path resolution is one lookup after the other, from the root. -/
structure Resolves (s : State) (q : Path) : Prop where
  inum : (pathToInum s (render q)).1.inum = toInum (walk (entryOf s) 2 q)
  parent : ∀ cs c m, q = cs ++ [c] → walk (entryOf s) 2 cs = some m → (pathToInum s (render q)).1.parent = m

/-- The entry that is found when what inode `k` holds is taken for a listing. -/
def rawEntry (s : State) (k : Nat) (c : List UInt8) : Option Nat :=
  if k < 2 then none else if c = [46] then some k else (listedRows s k).find (c.take 14)

/-- The lookups of further names, whatever they find. A name that is not found is inode 65535. -/
def drift (s : State) : Option Nat → Path → Option Nat
  | found, [] => found
  | found, c :: q => drift s (rawEntry s (ushort (toInum found)) c) q

/-- Where the lookups leave the directories before the last name, the names
that are left find nothing. -/
inductive Contained (s : State) : Nat → Path → Prop
  | arrived {k} : Contained s k []
  | entry {k : Nat} {c m q} : isdir (inodeLoad s k) ≠ 0 → (listedRows s k).find c = some m → Contained s m q →
    Contained s k (c :: q)
  | missing {k : Nat} {c q} : isdir (inodeLoad s k) ≠ 0 → (listedRows s k).find c = none → drift s none q = none →
    Contained s k (c :: q)
  | file {k : Nat} {c q} : isdir (inodeLoad s k) = 0 → drift s (some k) (c :: q) = none → Contained s k (c :: q)

/-- The directories `D` that lookups from the root reach. -/
structure Rooted (s : State) (D : Set Nat) : Prop where
  root : 2 ∈ D
  lower : ∀ k ∈ D, 2 ≤ k
  upper : ∀ k ∈ D, k < 65536
  dir : ∀ k ∈ D, isdir (inodeLoad s k) ≠ 0
  short : ∀ k ∈ D, ∀ i < (listedRows s k).rows, ((listedRows s k).key i).length ≤ 13
  dot : ∀ k ∈ D, (listedRows s k).find [46] = some k
  closed : ∀ k ∈ D, ∀ c m, (listedRows s k).find c = some m → isdir (inodeLoad s m) ≠ 0 → m ∈ D

/-- The disk is the same, and so is what lies behind the listing buffer. -/
structure Beyond (s t : State) : Prop where
  disk : t.disk = s.disk
  past : ∀ o, 33376 ≤ o → t.d o = s.d o

variable {L D : Set Nat} {s t : State} {fl : List Nat} {k m n : Nat} {found : Option Nat} {c name : List UInt8} {q cs : Path}
  {ops : List Op} {disk : Bytes}

theorem Beyond.trans {u : State} (first : Beyond s t) (second : Beyond t u) : Beyond s u :=
  ⟨second.disk.trans first.disk, fun o past => (second.past o past).trans (first.past o past)⟩

theorem beyond_fault (s : State) (bad : Bool) : Beyond s (s.fault bad) := ⟨rfl, fun _ _ => rfl⟩

theorem not_filled {ptrEnd o : Nat} (past : 33376 ≤ o) : ¬ Filled ptrEnd o := by
  rintro (inline | wants)
  · omega
  · have within := (leafOf_lt (by omega)).mp wants.1
    omega

/-- A listing does not depend on what was listed before. -/
theorem Beyond.listedRows_agree (beyond : Beyond s t) (k : Nat) : Table.Agree (listedRows s k) (listedRows t k) := by
  have loaded := inodeLoad_congr beyond.disk
  have rows : (dnodeListing t k).1 = (dnodeListing s k).1 := by
    rw [dnodeListing_rows, dnodeListing_rows, loaded]
  have cells : (fun q : Nat => inodeLoad t q) = fun q : Nat => inodeLoad s q := funext fun q => loaded q
  refine ⟨rows, fun i before => rowsOf_congr fun j within => ?_⟩
  replace before : i < (dnodeListing s k).1 := before
  rw [dnodeListing_rows] at before
  rw [dnodeListing_d, dnodeListing_d, listing_apply, listing_apply, loaded, cells]
  by_cases filled : Filled (diEntSize * size (inodeLoad s k)) (diEntSize * i + j)
  · rw [if_pos filled, if_pos filled]
  · rw [if_neg filled, if_neg filled]
    refine beyond.past _ ?_
    by_contra inside
    have position : diEntSize * i + j < diEntSize * size (inodeLoad s k) := by
      simp only [diEntSize]
      omega
    exact filled ((filled_of_lt (Nat.lt_min.mpr ⟨position, not_le.mp inside⟩) (Nat.min_le_right _ _)).imp_right
      fun wants => wants.mono (Nat.min_le_left _ _))

theorem beyond_listing (s : State) (k : Nat) : Beyond s (dnodeListing s k).2 := by
  refine ⟨dnodeListing_disk s k, fun o past => ?_⟩
  rw [dnodeListing_d, listing_apply, if_neg (not_filled past)]

/-- One lookup. -/
theorem Beyond.lookup (beyond : Beyond s t) (clean : 0 ∉ c) : (pathToInumElem t c k).1 = toInum (rawEntry s k c) ∧
    Beyond s (pathToInumElem t c k).2 := by
  rw [pathToInumElem, rawEntry]
  split
  · exact ⟨rfl, beyond⟩
  · split
    · exact ⟨rfl, beyond⟩
    · refine ⟨?_, beyond.trans ((beyond_listing t k).trans (beyond_fault _ _))⟩
      rw [← (beyond.listedRows_agree k).find_eq, listedRows]
      dsimp only
      generalize (dnodeListing t k).2.d = d
      generalize (dnodeListing t k).1 = n
      exact elemLoop_eq (t := rowsOf d n) clean (fun j _ => rfl) fun j _ => rfl

theorem rawEntry_lt (small : k < 65536) (hit : rawEntry s k c = some m) : m < 65536 := by
  rw [rawEntry] at hit
  split at hit
  · cases hit
  · split at hit
    · obtain rfl := Option.some.inj hit
      exact small
    · obtain ⟨j, _, _, _, rfl⟩ := Table.findFrom_some hit
      exact Bytes.get16_lt _ _

theorem toInum_inj {r r' : Option Nat} (same : toInum r = toInum r') : r = r' := by
  cases r <;> cases r' <;> simp only [toInum] at same
  · rfl
  · omega
  · omega
  · rw [Int.ofNat.inj same]

/-- The lookups of the tokenizer. -/
theorem Beyond.lookupAll_eq (beyond : Beyond s t) (small : ∀ k, found = some k → k < 65536)
    (clean : ∀ c ∈ q, 0 ∉ c) : (lookupAll t (toInum found) q).1 = toInum (drift s found q) := by
  induction q generalizing t found with
  | nil => rfl
  | cons c q ih =>
    have within : ushort (toInum found) < 65536 := by
      rw [ushort]
      omega
    obtain ⟨here, beyond'⟩ := beyond.lookup (k := ushort (toInum found)) (clean c (List.mem_cons_self ..))
    rw [lookupAll, drift, here]
    exact ih beyond' (fun m hit => rawEntry_lt within hit) fun x member => clean x (List.mem_cons_of_mem _ member)

theorem pathToInum_drift (named : ∀ c ∈ q, Component c) :
    (pathToInum s (render q)).1.inum = toInum (drift s (some 2) q) ∧
      (pathToInum s (render q)).1.parent = toInum (drift s (some 2) q.dropLast) := by
  have clean : ∀ c ∈ q, 0 ∉ c := fun c member => (named c member).noNul
  have start := beyond_fault s (decide ((render q).length ≥ PATH_MAX))
  have root : ∀ k, some 2 = some k → k < 65536 := fun k same => by
    obtain rfl := Option.some.inj same
    decide
  constructor
  · have looked : (pathToInum s (render q)).1.inum = _ := congrArg Prod.fst pathToInum_lookups
    rw [Spelled.plain.lookups_eq named] at looked
    exact looked.trans (start.lookupAll_eq root clean)
  · rw [pathToInum_parent, Spelled.plain.tokens_eq named]
    exact start.lookupAll_eq root fun c member => clean c (List.mem_of_mem_dropLast member)

namespace Rooted

variable (rooted : Rooted s D)

include rooted

/-- In a directory, what is taken for the listing is the listing. -/
theorem rawEntry_eq (live : k ∈ D) : rawEntry s k c = (listedRows s k).find c := by
  have lower := rooted.lower k live
  rw [rawEntry, if_neg (by omega)]
  split
  next dot => rw [dot, rooted.dot k live]
  next =>
    by_cases short : c.length ≤ 14
    · rw [List.take_of_length_le short]
    · have long : ∀ x : List UInt8, 13 < x.length → (listedRows s k).find x = none := fun x exceeds => by
        refine Table.find_none.mpr fun j hj hit => ?_
        have named := rooted.short k live j hj
        rw [hit] at named
        omega
      rw [long c (by omega), long _ (by rw [List.length_take]; omega)]

theorem entryOf_eq (live : k ∈ D) : entryOf s k c = (listedRows s k).find c := if_pos (rooted.dir k live)

/-- In a directory a name is looked up among the entries. -/
theorem drift_cons (live : k ∈ D) : drift s (some k) (c :: q) = drift s ((listedRows s k).find c) q := by
  have small := rooted.upper k live
  have number : ushort (toInum (some k)) = k := ushort_nat small
  rw [drift, number, rooted.rawEntry_eq live]

/-- As long as there are directories, the lookups find what the entries lead to. -/
theorem drift_walk (live : k ∈ D) (walks : walk (entryOf s) k q = some m) : drift s (some k) q = some m := by
  induction q generalizing k with
  | nil => exact walks
  | cons c q ih =>
    obtain ⟨k', here, rest⟩ := Option.bind_eq_some_iff.mp walks
    rw [rooted.entryOf_eq live] at here
    rw [rooted.drift_cons live, here]
    by_cases dir : isdir (inodeLoad s k') ≠ 0
    · exact ih (rooted.closed k live c k' here dir) rest
    · cases q with
      | nil => exact rest
      | cons c' q =>
        rw [walk, entryOf, if_neg dir] at rest
        cases rest

/-- The lookups are those in the directories exactly when nothing is found outside of them. -/
theorem drift_iff (live : k ∈ D) : drift s (some k) q = walk (entryOf s) k q ↔ Contained s k q := by
  induction q generalizing k with
  | nil => exact iff_of_true rfl .arrived
  | cons c q ih =>
    have dir := rooted.dir k live
    rw [rooted.drift_cons live, walk, rooted.entryOf_eq live]
    cases here : (listedRows s k).find c with
    | none =>
      rw [Option.bind_none]
      constructor
      · exact .missing dir here
      · intro contained
        cases contained with
        | entry _ hit _ => cases here.symm.trans hit
        | missing _ _ none => exact none
        | file file _ => exact absurd file dir
    | some m =>
      rw [Option.bind_some]
      have below : drift s (some m) q = walk (entryOf s) m q ↔ Contained s m q := by
        by_cases dir' : isdir (inodeLoad s m) ≠ 0
        · exact ih (rooted.closed k live c m here dir')
        · cases q with
          | nil => exact iff_of_true rfl .arrived
          | cons c' q =>
            have none : walk (entryOf s) m (c' :: q) = Option.none := by rw [walk, entryOf, if_neg dir', Option.bind_none]
            rw [none]
            constructor
            · exact .file (not_not.mp dir')
            · intro contained
              cases contained with
              | entry dir'' _ _ => exact absurd dir'' dir'
              | missing dir'' _ _ => exact absurd dir'' dir'
              | file _ none => exact none
      rw [below]
      constructor
      · exact .entry dir here
      · intro contained
        cases contained with
        | entry _ hit rest =>
          obtain rfl := Option.some.inj (here.symm.trans hit)
          exact rest
        | missing _ none _ => cases here.symm.trans none
        | file file _ => exact absurd file dir

theorem resolves_iff (named : ∀ c ∈ q, Component c) : Resolves s q ↔ Contained s 2 q := by
  obtain ⟨whole, above⟩ := pathToInum_drift (s := s) named
  rw [← rooted.drift_iff rooted.root]
  constructor
  · intro resolves
    have inum := resolves.inum
    rw [whole] at inum
    exact toInum_inj inum
  · intro same
    refine ⟨by rw [whole, same], ?_⟩
    rintro cs c m rfl walks
    rw [above, List.dropLast_concat, rooted.drift_walk rooted.root walks]
    rfl

end Rooted

/-- The directories that paths lead to. -/
def Reached (p : Pool Bytes) : Set Nat := {k | (∃ q, walk (child p) 2 q = some k) ∧ isdir (p.cell k) ≠ 0}

/-- A directory is in a directory. -/
theorem Reached.special (tree : Tree L s.stores.pool) (dotted : Dotted L s.stores.pool)
    (reached : k ∈ Reached s.stores.pool) : ∃ m ∈ Reached s.stores.pool, Special s.stores.pool k m := by
  obtain ⟨⟨q, walks⟩, dir⟩ := reached
  rcases List.eq_nil_or_concat q with rfl | ⟨cs, c, rfl⟩
  · obtain rfl : 2 = k := Option.some.inj walks
    exact ⟨2, ⟨⟨[], rfl⟩, dir⟩, dotted.top⟩
  · rw [List.concat_eq_append] at walks
    obtain ⟨m, above, last⟩ := Walk.concat_some.mp walks
    exact ⟨m, ⟨⟨cs, above⟩, (child_some last).1⟩, dotted.inner m (tree.reach above).1 c k last dir⟩

theorem Good.rooted (good : Good s L fl) (dotted : Dotted L s.stores.pool) : Rooted s (Reached s.stores.pool) := by
  have live : ∀ k ∈ Reached s.stores.pool, k ∈ L ∧ DirOk s.stores.pool k := fun k reached => by
    obtain ⟨⟨q, walks⟩, dir⟩ := reached
    obtain ⟨live, ok⟩ := good.tree.reach walks
    exact ⟨live, ok dir⟩
  have range : ∀ k ∈ Reached s.stores.pool, 2 ≤ k ∧ k < 1024 := fun k reached =>
    good.owned.node_range (live k reached).1
  have rep : ∀ k ∈ Reached s.stores.pool, Represents s k (dirTable s.stores.pool k).find := fun k reached =>
    (live k reached).2.represents good.owned (live k reached).1
  refine ⟨⟨⟨[], rfl⟩, good.tree.top.dir⟩, fun k reached => (range k reached).1,
    fun k reached => (range k reached).2.trans (by decide), fun k reached => (rep k reached).dir,
    fun k reached => (rep k reached).short, fun k reached => ?_, fun k reached c m hit dir => ?_⟩
  · obtain ⟨_, _, special⟩ := Reached.special good.tree dotted reached
    rw [(rep k reached).find_eq, special.dot]
  · rw [(rep k reached).find_eq] at hit
    obtain ⟨parent, reached', special⟩ := Reached.special good.tree dotted reached
    by_cases dot : c = [46]
    · rw [dot, special.dot] at hit
      obtain rfl := Option.some.inj hit
      exact reached
    by_cases dotdot : c = [46, 46]
    · rw [dotdot, special.dotdot] at hit
      obtain rfl := Option.some.inj hit
      exact reached'
    · have leads : child s.stores.pool k c = some m := by
        rw [child_dir reached.2 dot dotdot]
        exact hit
      obtain ⟨⟨q, walks⟩, _⟩ := reached
      have walks' : walk (child s.stores.pool) 2 (q ++ [c]) = some m := Walk.concat_some.mpr ⟨k, walks, leads⟩
      rw [good.owned.inodeLoad_eq (good.tree.reach walks').1] at dir
      exact ⟨⟨_, walks'⟩, dir⟩

/-- In every state of a run, a path is resolved by single-name lookups exactly
when the names behind what is not a directory find nothing. -/
theorem run_resolves (run : Run step Permit (sfsInit disk) ops s) (named : ∀ c ∈ q, Component c) :
    Resolves s q ↔ Contained s 2 q := by
  obtain ⟨L, fl, good, dotted⟩ := run_dotted run
  exact (good.rooted dotted).resolves_iff named

/-- The path of the first file is resolved so. -/
theorem run_resolves_first : Resolves firstState [[97]] := by
  obtain ⟨k, first⟩ := firstState_firstFile
  have good := first.good
  have rep := good.tree.top.represents good.owned good.tree.root
  have leads := first.leads
  rw [child_dir good.tree.top.dir (by decide) (by decide), ← rep.find_eq] at leads
  exact (run_resolves (run_first.mono fun _ _ => Ready.permit) component_a).mpr (.entry rep.dir leads .arrived)

/-- On a new file system `/a/.` is inode 65535. -/
theorem absent_prefix_resolves : Run step Permit (sfsInit Bytes.zero) [] (sfsInit Bytes.zero) ∧
    (pathToInum (sfsInit Bytes.zero) (render [[97], [46]])).1.inum = 65535 ∧
    ¬ Resolves (sfsInit Bytes.zero) [[97], [46]] := by
  refine ⟨.nil, ?_⟩
  have named : ∀ c ∈ [[97], [46]], Component c := by
    intro c member
    rcases List.mem_cons.mp member with rfl | member
    · exact ⟨by decide, by decide, by decide⟩
    · obtain rfl := List.mem_singleton.mp member
      exact ⟨by decide, by decide, by decide⟩
  obtain ⟨L, fl, good, dotted⟩ := run_dotted (.nil : Run step Permit (sfsInit Bytes.zero) [] _)
  have initial := sfsInit_initial Bytes.zero
  have absent := child_dnodeImage (c := [97]) initial.root
  generalize sfsInit Bytes.zero = s at *
  have rooted := good.rooted dotted
  have rep := good.tree.top.represents good.owned good.tree.root
  rw [child_dir good.tree.top.dir (by decide) (by decide), ← rep.find_eq] at absent
  have none : ushort (toInum none) = 65535 := by decide
  have dot : rawEntry s 65535 [46] = some 65535 := by
    rw [rawEntry, if_neg (by omega), if_pos rfl]
  have found : drift s (some 2) [[97], [46]] = some 65535 := by
    rw [rooted.drift_cons rooted.root, absent, drift, none, dot, drift]
  have inum := (pathToInum_drift (s := s) named).1
  rw [found] at inum
  refine ⟨inum, fun resolves => ?_⟩
  have walks : walk (entryOf s) 2 [[97], [46]] = Option.none := by
    rw [walk, rooted.entryOf_eq rooted.root, absent, Option.bind_none]
  have spec := resolves.inum
  rw [inum, walks, toInum_none, toInum] at spec
  omega

end Sfs
