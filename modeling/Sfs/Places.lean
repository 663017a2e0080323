import Sfs.DirMap
import Sfs.Limits

namespace Sfs

/-- What the rows of the directories lead to from the root, the two special names aside. -/
inductive InTree (s : State) : Nat → Prop
  | root : InTree s 2
  | entry {k j : Nat} : InTree s k → isdir (inodeLoad s k) ≠ 0 → j < (listedRows s k).rows →
    (listedRows s k).key j ≠ [46] → (listedRows s k).key j ≠ [46, 46] → InTree s ((listedRows s k).val j)

/-- Where an inode number can be stored. -/
inductive Place
  | entry (k j : Nat)
  | pnum (k i : Nat)
  | exPnum (k i : Nat)
  | exnum (k i j : Nat)

/-- The inode numbers in the tree and where they are: in the rows of the
directories, and in the slots that the size of a node needs. -/
inductive Uses (s : State) : Place → Nat → Prop
  | entry {k j : Nat} : InTree s k → isdir (inodeLoad s k) ≠ 0 → j < (listedRows s k).rows →
    (listedRows s k).key j ≠ [46] → (listedRows s k).key j ≠ [46, 46] → Uses s (.entry k j) ((listedRows s k).val j)
  | pnum {k i : Nat} : InTree s k → i < 4 → 96 + 128 * i < endOf (inodeLoad s k) →
    Uses s (.pnum k i) (pnum (inodeLoad s k) i)
  | exPnum {k i : Nat} : InTree s k → i < 4 → 608 + 8192 * i < endOf (inodeLoad s k) →
    Uses s (.exPnum k i) (exPnum (inodeLoad s k) i)
  | exnum {k i j : Nat} : InTree s k → i < 4 → j < 64 → 608 + 8192 * i + 128 * j < endOf (inodeLoad s k) →
    Uses s (.exnum k i j) (exnum (inodeLoad s (exPnum (inodeLoad s k) i)) j)

/-- Every inode number in the tree can be handed out, is marked used, and is in one place. -/
structure OnePlace (s : State) : Prop where
  range : ∀ place n, Uses s place n → 3 ≤ n ∧ n ≤ 1023
  marked : ∀ place n, Uses s place n → s.stores.pool.free n = false
  once : ∀ place place' n, Uses s place n → Uses s place' n → place = place'

/-- The slot of page `c` of node `k`. -/
def slotAt (k c : Nat) : Place :=
  if c < 4 then .pnum k c
  else if (c - 4) % 65 = 0 then .exPnum k ((c - 4) / 65) else .exnum k ((c - 4) / 65) ((c - 4) % 65 - 1)

variable {L : Set Nat} {s : State} {fl : List Nat} {i j k m n : Nat} {place place' : Place}

theorem slotAt_index : slotAt k (indexCode i) = .exPnum k i := by
  have group : 65 * i / 65 = i := by omega
  rw [slotAt, if_neg not_indexCode_lt, indexCode_sub, group, if_pos (by omega)]

theorem slotAt_leaf (within : j < 64) : slotAt k (leafCode i j) = .exnum k i j := by
  have group : (65 * i + (j + 1)) / 65 = i := by omega
  have rest : (65 * i + (j + 1)) % 65 = j + 1 := by omega
  rw [slotAt, if_neg not_leafCode_lt, leafCode_sub, group, rest, if_neg (by omega), Nat.add_sub_cancel]

namespace Good

variable (good : Good s L fl)

include good

/-- A row past the special ones is an entry that is followed. -/
theorem row_leads (live : k ∈ L) (ok : DirOk s.stores.pool k) (within : j < (listedRows s k).rows)
    (notDot : (listedRows s k).key j ≠ [46]) (notDotdot : (listedRows s k).key j ≠ [46, 46]) :
    j < size (s.stores.pool.cell k) ∧
      child s.stores.pool k (entName s.stores.pool k j) = some ((listedRows s k).val j) := by
  obtain ⟨rows, same⟩ := good.owned.listed_agree live ok.dir
  rw [rows] at within
  obtain ⟨name, value⟩ := same j within
  replace name : (listedRows s k).key j = entName s.stores.pool k j := name
  rw [name] at notDot notDotdot
  refine ⟨within, ?_⟩
  rw [child_dir ok.dir notDot notDotdot, Table.find_some ok.distinct]
  exact ⟨j, within, rfl, value.symm⟩

theorem inTree (inTree : InTree s k) : k ∈ L ∧ (isdir (s.stores.pool.cell k) ≠ 0 → DirOk s.stores.pool k) := by
  induction inTree with
  | root => exact ⟨good.tree.root, fun _ => good.tree.top⟩
  | entry _ dir within notDot notDotdot ih =>
    obtain ⟨live, ok⟩ := ih
    rw [good.owned.inodeLoad_eq live] at dir
    obtain ⟨_, leads⟩ := good.row_leads live (ok dir) within notDot notDotdot
    obtain ⟨live', _, ok'⟩ := good.tree.closed _ live _ _ leads
    exact ⟨live', ok'⟩

/-- A number in use is an entry or a page of a node. -/
theorem uses_cases (uses : Uses s place n) :
    (∃ k j, place = .entry k j ∧ k ∈ L ∧ DirOk s.stores.pool k ∧ j < size (s.stores.pool.cell k) ∧
      child s.stores.pool k (entName s.stores.pool k j) = some n) ∨
    ∃ k c, place = slotAt k c ∧ k ∈ L ∧ Wants (endOf (s.stores.pool.cell k)) c ∧
      placeNo s.stores.pool.cell k c = n := by
  cases uses with
  | entry inTree dir within notDot notDotdot =>
    obtain ⟨live, ok⟩ := good.inTree inTree
    rw [good.owned.inodeLoad_eq live] at dir
    obtain ⟨within', leads⟩ := good.row_leads live (ok dir) within notDot notDotdot
    exact Or.inl ⟨_, _, rfl, live, ok dir, within', leads⟩
  | @pnum k i inTree small reaches =>
    obtain ⟨live, _⟩ := good.inTree inTree
    rw [good.owned.inodeLoad_eq live] at reaches ⊢
    have wants := (wants_first small).mpr reaches
    refine Or.inr ⟨k, i, (if_pos small).symm, live, wants, ?_⟩
    rw [placeNo_page wants, pageNo_first small]
  | @exPnum k i inTree small reaches =>
    obtain ⟨live, _⟩ := good.inTree inTree
    rw [good.owned.inodeLoad_eq live] at reaches ⊢
    have wants := (wants_index small).mpr reaches
    refine Or.inr ⟨k, indexCode i, slotAt_index.symm, live, wants, ?_⟩
    rw [placeNo_page wants, pageNo_index]
  | @exnum k i j inTree small within reaches =>
    obtain ⟨live, _⟩ := good.inTree inTree
    rw [good.owned.inodeLoad_eq live] at reaches ⊢
    have wants := (wants_leaf small within).mpr reaches
    have index := wants.index_of_leaf small within
    have range := good.owned.range k live _ (.page index)
    rw [placeNo_page index, pageNo_index] at range
    refine Or.inr ⟨k, leafCode i j, (slotAt_leaf within).symm, live, wants, ?_⟩
    rw [placeNo_page wants, pageNo_leaf within, inodeLoad_cell (by omega) (by omega)]

/-- No number is in two places. -/
theorem onePlace : OnePlace s := by
  refine ⟨fun place n uses => ?_, fun place n uses => ?_, fun place place' n uses uses' => ?_⟩
  · rcases good.uses_cases uses with ⟨k, j, _, live, _, _, leads⟩ | ⟨k, c, _, live, wants, number⟩
    · obtain ⟨live', notRoot, _⟩ := good.tree.closed k live _ n leads
      have range := good.owned.node_range live'
      omega
    · have range := good.owned.range k live c (.page wants)
      have notRoot : placeNo s.stores.pool.cell k c ≠ placeNo s.stores.pool.cell 2 264 := fun same => by
        have places := good.owned.inj k live 2 good.tree.root c 264 (.page wants) (.self _) same
        have := wants.1
        omega
      rw [placeNo_self] at notRoot
      omega
  · rcases good.uses_cases uses with ⟨k, j, _, live, _, _, leads⟩ | ⟨k, c, _, live, wants, number⟩
    · exact good.owned.node_used (good.tree.closed k live _ n leads).1
    · rw [← number]
      exact good.owned.used k live c (.page wants)
  · rcases good.uses_cases uses with ⟨k, j, rfl, live, ok, within, leads⟩ | ⟨k, c, rfl, live, wants, number⟩ <;>
      rcases good.uses_cases uses' with ⟨k', j', rfl, live', _, within', leads'⟩ | ⟨k', c', rfl, live', wants', number'⟩
    · obtain ⟨rfl, name⟩ := good.tree.once k live k' live' _ _ n leads leads'
      rw [ok.distinct j within j' within' name]
    · have node := (good.tree.closed k live _ n leads).1
      have places := good.owned.inj n node k' live' 264 c' (.self _) (.page wants') (by rw [placeNo_self, number'])
      have := wants'.1
      omega
    · have node := (good.tree.closed k' live' _ n leads').1
      have places := good.owned.inj n node k live 264 c (.self _) (.page wants) (by rw [placeNo_self, number])
      have := wants.1
      omega
    · obtain ⟨rfl, rfl⟩ := good.owned.inj k live k' live' c c' (.page wants) (.page wants') (number.trans number'.symm)
      rfl

end Good

/-- In a run within the limits no inode number is in two places. -/
theorem run_onePlace {disk : Bytes} {ops : List Op} (run : Run step InLimits (sfsInit disk) ops s) : OnePlace s := by
  obtain ⟨L, fl, settled⟩ := run_settled run
  exact settled.toGood.onePlace

theorem inLimits_first : InLimits (sfsInit Bytes.zero) (.create (render [[97]]) Bytes.zero) :=
  ⟨ready_first.vfs, trivial, Or.inr ready_first.inodes⟩

/-- With one file each number is in one place. -/
theorem run_onePlace_first : OnePlace firstState := run_onePlace (.next .nil inLimits_first)

end Sfs
