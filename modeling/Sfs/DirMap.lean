import Sfs.FirstFile
import Sfs.RoundTrip

namespace Sfs

/-- The entries that `dnode_listing` puts into its buffer. -/
def listedRows (s : State) (k : Nat) : Table (List UInt8) Nat :=
  rowsOf (dnodeListing s k).2.d (dnodeListing s k).1

/-- Directory `k` stores a finite map from names to inode numbers. -/
structure Represents (s : State) (k : Nat) (m : List UInt8 → Option Nat) : Prop where
  dir : isdir (inodeLoad s k) ≠ 0
  room : (listedRows s k).rows ≤ DENTRY_MAX_SIZE
  distinct : (listedRows s k).Distinct
  short : ∀ i < (listedRows s k).rows, ((listedRows s k).key i).length ≤ 13
  entry : ∀ c v, m c = some v ↔ ∃ i < (listedRows s k).rows, (listedRows s k).key i = c ∧ (listedRows s k).val i = v

/-- The names of node `k` are looked up as in the map. -/
def LooksUp (s : State) (k : Nat) (m : List UInt8 → Option Nat) : Prop :=
  ∀ c : List UInt8, 0 ∉ c → c ≠ [46] → (pathToInumElem s c k).1 = toInum (m c)

/-- The directories other than `k` have the entries they had. -/
def DirsKept (L : Set Nat) (s s' : State) (k : Nat) : Prop :=
  ∀ j ∈ L, j ≠ k → isdir (s.stores.pool.cell j) ≠ 0 → size (s.stores.pool.cell j) ≤ DENTRY_MAX_SIZE →
    listedDir s' j = listedDir s j

variable {L : Set Nat} {s s' : State} {k j n r : Nat} {m : List UInt8 → Option Nat} {c name : List UInt8}
  {d d' buf tail item : Bytes}

namespace Represents

variable (rep : Represents s k m)

include rep

theorem find_eq : (listedRows s k).find c = m c := by
  ext v
  rw [Table.find_some rep.distinct, rep.entry]

theorem looksUp (lower : 2 ≤ k) : LooksUp s k m := by
  intro c clean notDot
  have long : ∀ x : List UInt8, 13 < x.length → (listedRows s k).find x = none := fun x exceeds => by
    refine Table.find_none.mpr fun j hj hit => ?_
    have short := rep.short j hj
    rw [hit] at short
    omega
  have cut : (listedRows s k).find (c.take 14) = (listedRows s k).find c := by
    by_cases short : c.length ≤ 14
    · rw [List.take_of_length_le short]
    · rw [long c (by omega), long _ (by rw [List.length_take]; omega)]
  rw [pathToInumElem, if_neg (show ¬ k < 2 by omega), if_neg notDot, ← rep.find_eq, ← cut]
  dsimp only
  rw [listedRows]
  generalize (dnodeListing s k).2.d = d
  generalize (dnodeListing s k).1 = n
  exact elemLoop_eq (t := rowsOf d n) clean (fun j _ => rfl) fun j _ => rfl

end Represents

/-- What is listed of a directory depends on its places only. -/
theorem Marked.dnodeListing_same (marked : Marked L s.slots) (live : j ∈ L) (same : Same s.slots s'.slots j)
    (dir : isdir (s.slots.cell j) ≠ 0) (limit : size (s.slots.cell j) ≤ DENTRY_MAX_SIZE) :
    (dnodeListing s' j).1 = (dnodeListing s j).1 ∧
      ∀ o < diEntSize * (dnodeListing s j).1, (dnodeListing s' j).2.d o = (dnodeListing s j).2.d o := by
  have range := marked.node_range live
  have entry : entrySize (s.slots.cell j) = diEntSize := if_pos dir
  have pages : ∀ c, Wants (endOf (s.slots.cell j)) c → pageNo s.slots.cell (s.slots.cell j) c < 4096 := fun c wants => by
    have := (marked.pagesOk live).upper c wants
    omega
  have cell := same.cell_eq
  have old := listing_slots entry (by omega) pages s.d
  have new := listing_slots (s := s') (by rw [cell, entry]) (by omega) (fun c wants => by
    rw [cell] at wants
    rw [same.pageNo_eq wants]
    exact pages c wants) s'.d
  rw [cell] at new
  have fits : diEntSize * size (s.slots.cell j) ≤ 33376 := by
    simp only [diEntSize, DENTRY_MAX_SIZE] at limit ⊢
    omega
  have rows : (dnodeListing s j).1 = size (s.slots.cell j) := old.1
  have rows' : (dnodeListing s' j).1 = size (s.slots.cell j) := new.1
  have ends : endOf (s.slots.cell j) = diEntSize * size (s.slots.cell j) := endOf_dir dir
  rw [rows, rows']
  refine ⟨rfl, fun o before => ?_⟩
  have filled : Filled (endOf (s.slots.cell j)) o := by
    rw [ends]
    exact filled_of_lt before fits
  have bytes := same.content_eq filled
  rw [cell] at bytes
  rw [dnodeListing_d, dnodeListing_d, new.2.1 o filled, old.2.1 o filled, bytes]

section

variable (marked : Marked L s.slots) (live : k ∈ L) (dir : isdir (s.slots.cell k) ≠ 0) (small : n < 2086)

include marked live dir small

/-- A directory is given the first `n` entries of the buffer, and its link count is set. -/
theorem relisted (v : Nat) (pops : Pops s.slots (diEntSize * n) (endOf (s.slots.cell k)) (dnodeListingSet s k n))
    (run : inodeDump (dnodeListingSet s k n) k (setNlink (inodeLoad (dnodeListingSet s k n) k) v) = s') :
    Table.Agree (rowsOf s.d n) (listedRows s' k) ∧ isdir (inodeLoad s' k) ≠ 0 ∧
      ∀ j ∈ L, j ≠ k → Same s.slots s'.slots j := by
  have range := marked.node_range live
  have entry : entrySize (s.slots.cell k) = diEntSize := if_pos dir
  generalize mid : dnodeListingSet s k n = s₁ at pops run
  rw [dnodeListingSet_eq small, ← entry] at mid
  rw [← entry] at pops
  obtain ⟨_, resized, ends, _, pages⟩ := marked.listingSet_spec live mid (by omega) pops
  rw [entry] at resized ends
  rw [ends] at pages
  have loaded : inodeLoad s₁ k = s₁.slots.cell k := inodeLoad_slot (by omega)
  have cut : (s₁.slots.cell k).take 128 = s₁.slots.cell k := by
    rw [← loaded, inodeLoad_window (by omega)]
    exact Bytes.take_take
  have slots : s'.slots = s₁.slots.write k ((setNlink (s₁.slots.cell k) v).take 128) := by
    rw [← run, loaded]
    exact slots_inodeDump (by omega)
  have header : ∀ o, o < 6 ∨ 12 ≤ o → (setNlink (s₁.slots.cell k) v).take 128 o = s₁.slots.cell k o := fun o out => by
    have byte := congrFun cut o
    simp only [Bytes.take] at byte ⊢
    rwa [setNlink_apply out]
  replace resized := resized.header (fun c wants => (pages c wants).2) header
  have number : ∀ c, Wants (diEntSize * n) c → pageNo s'.slots.cell (s'.slots.cell k) c < 1024 := fun c wants => by
    have same := pageNo_header (fun c wants => (pages c wants).2) (fun o _ => header o (by omega)) wants
    rw [slots, Pool.write_cell_self]
    exact same.trans_lt (pages c wants).1
  rw [← slots] at resized
  have dir' : isdir (s'.slots.cell k) ≠ 0 := by rwa [resized.isdir_eq]
  have rows := resized.size
  have ends' : endOf (s'.slots.cell k) = diEntSize * n := by rw [endOf_dir dir', rows]
  obtain ⟨count, filled, _⟩ := listing_slots (k := k) (show entrySize (s'.slots.cell k) = diEntSize from if_pos dir')
    (by omega) (fun c wants => by
      rw [ends'] at wants
      exact (number c wants).trans (by omega)) s'.d
  rw [ends'] at filled
  rw [rows] at count
  refine ⟨⟨count, fun i hi => ?_⟩, by rwa [inodeLoad_slot (by omega)], fun j live' ne => resized.same marked live rfl live' ne⟩
  have bytes : ∀ o, Filled (diEntSize * n) o → (dnodeListing s' k).2.d o = s.d o := fun o within => by
    rw [dnodeListing_d, filled o within, resized.content o within]
  have fits : diEntSize * n ≤ 33376 := by simp only [diEntSize]; omega
  rw [listedRows]
  generalize (dnodeListing s' k).2.d = d at bytes ⊢
  exact ⟨name_congr bytes fits hi, inum_congr bytes fits hi⟩

end

theorem Represents.of_find (dir : isdir (inodeLoad s k) ≠ 0) (room : (listedRows s k).rows ≤ DENTRY_MAX_SIZE)
    (distinct : (listedRows s k).Distinct) (short : ∀ i < (listedRows s k).rows, ((listedRows s k).key i).length ≤ 13)
    (find : ∀ c, (listedRows s k).find c = m c) : Represents s k m :=
  ⟨dir, room, distinct, short, fun c v => by rw [← find, Table.find_some distinct]⟩

theorem Represents.congr (rep : Represents s k m) (dir : isdir (inodeLoad s' k) ≠ 0)
    (agree : Table.Agree (listedRows s k) (listedRows s' k)) : Represents s' k m := by
  have room := rep.room
  have short := rep.short
  refine .of_find dir (agree.1.trans_le room) (agree.distinct rep.distinct) (fun i before => ?_) fun c => ?_
  · rw [agree.1] at before
    rw [(agree.2 i before).1]
    exact short i before
  · rw [agree.find_eq, rep.find_eq]

theorem slots_congr (same : s'.disk = s.disk) : s'.slots = s.slots := by
  simp only [State.slots, State.stores, same]

theorem dirsKept (marked : Marked L s.stores.pool) (same : ∀ j ∈ L, j ≠ k → Same s.slots s'.slots j) :
    DirsKept L s s' k := by
  intro j live ne dir limit
  have range := marked.node_range live
  have cell : s.slots.cell j = s.stores.pool.cell j := slots_cell (by omega)
  rw [← cell] at dir limit
  obtain ⟨rows, bytes⟩ := marked.slots.dnodeListing_same live (same j live ne) dir limit
  rw [listedDir, listedDir, rows]
  exact List.map_congr_left fun i member => diEnt_congr bytes (List.mem_range.mp member)

section

variable (marked : Marked L s.stores.pool) (live : k ∈ L) (rep : Represents s k m)

include marked live rep

/-- The directory is listed into the buffer before it is changed. -/
theorem listed_start (d' : Bytes) : ∃ n d, dnodeListing s k = (n, { s with d }) ∧ listedRows s k = rowsOf d n ∧
    size (s.slots.cell k) = n ∧ isdir (({ s with d := d' } : State).slots.cell k) ≠ 0 ∧
    Marked L ({ s with d := d' } : State).slots ∧ ({ s with d := d' } : State).slots = s.slots := by
  have range := marked.node_range live
  have loaded : inodeLoad s k = s.slots.cell k := inodeLoad_slot (by omega)
  have start : ({ s with d := d' } : State).slots = s.slots := slots_congr rfl
  have rows := dnodeListing_rows s k
  have dir := rep.dir
  rw [loaded] at rows dir
  refine ⟨(dnodeListing s k).1, (dnodeListing s k).2.d, by rw [dnodeListing], rfl, rows.symm, by rwa [start], ?_, start⟩
  rw [start]
  exact marked.slots

theorem dnodeAppend_map (fresh : m (Bytes.chars item 0 14) = none) (short : (Bytes.chars item 0 14).length ≤ 13)
    (small : size (s.stores.pool.cell k) + 1 < DENTRY_MAX_SIZE)
    (room : pageCount (diEntSize * (size (s.stores.pool.cell k) + 1)) (endOf (s.stores.pool.cell k)) ≤
      s.stores.pool.freeCount 1024) :
    Represents (dnodeAppend s k item) k (Function.update m (Bytes.chars item 0 14) (some (item.get16 14))) ∧
      DirsKept L s (dnodeAppend s k item) k := by
  have range := marked.node_range live
  have cell : s.slots.cell k = s.stores.pool.cell k := slots_cell (by omega)
  have short' : ushort k = k := ushort_nat (by omega)
  have limit : DENTRY_MAX_SIZE = 2086 := rfl
  obtain ⟨n, d, listed, table, rows, _⟩ := listed_start marked live rep s.d
  obtain ⟨_, _, _, _, _, dir, startMarked, start⟩ :=
    listed_start marked live rep (d.copy (diEntSize * n) item 0 diEntSize)
  rw [← cell, rows] at small room
  generalize run : dnodeAppend s k item = s'
  have inside : decide (n ≥ DENTRY_MAX_SIZE) = false := by simp; omega
  simp only [dnodeAppend, short', listed, inside, fault_false] at run
  have pushed := rowsOf_pushed d item n
  generalize d.copy (diEntSize * n) item 0 diEntSize = d' at *
  obtain ⟨agree, dir', same⟩ := relisted (n := n + 1) startMarked live dir (by omega) _
    (Or.inr (by rw [start]; exact room)) run
  rw [start] at same
  replace pushed := pushed.agree agree
  rw [← table] at pushed
  rw [← rep.find_eq] at fresh
  have distinct := pushed.distinct rep.distinct fresh
  have find : ∀ c, (listedRows s' k).find c = Function.update m (Bytes.chars item 0 14) (some (item.get16 14)) c := by
    intro c
    rw [pushed.find_eq rep.distinct fresh, Function.update_apply, rep.find_eq]
  have named := rep.short
  obtain ⟨more, old, key, _⟩ := pushed
  rw [table] at more old key named
  have total : (listedRows s' k).rows = n + 1 := more
  refine ⟨.of_find dir' (by omega) distinct (fun i before => ?_) find, dirsKept marked same⟩
  by_cases last : i < n
  · rw [(old i last).1]
    exact named i last
  · obtain rfl : i = n := by omega
    exact (congrArg List.length key).trans_le short

/-- Nothing but the buffers has changed. -/
theorem same_disk (disk : s'.disk = s.disk) : Represents s' k m ∧ DirsKept L s s' k := by
  have range := marked.node_range live
  have loaded : inodeLoad s k = s.slots.cell k := inodeLoad_slot (by omega)
  have dir := rep.dir
  have room := rep.room
  have rows := dnodeListing_rows s k
  rw [loaded] at rows
  have limit : size (s.slots.cell k) ≤ DENTRY_MAX_SIZE := by
    rw [← rows]
    exact room
  have kept : ∀ j ∈ L, Same s.slots s'.slots j := fun j _ => by
    rw [slots_congr disk]
    exact .refl _ _
  obtain ⟨count, bytes⟩ := marked.slots.dnodeListing_same live (kept k live) (by rwa [← loaded]) limit
  refine ⟨rep.congr ?_ ⟨count, fun i before => rowsOf_congr fun o within => bytes _ ?_⟩,
    dirsKept marked fun j live' _ => kept j live'⟩
  · rw [inodeLoad_congr disk]
    exact dir
  · replace before : i < (dnodeListing s k).1 := before
    simp only [diEntSize]
    omega

/-- The directory is cut once, or only listed. -/
theorem dnodeRemove_cases (filename : Bytes) :
    ((listedRows s k).find (Bytes.chars filename 0 13) = none ∧ (dnodeRemove s k filename).disk = s.disk) ∨
    ∃ n r d v, 0 < n ∧ r < n ∧ size (s.slots.cell k) = n ∧ (listedRows s k).key r = Bytes.chars filename 0 13 ∧
      Table.Dropped (listedRows s k) (rowsOf d (n - 1)) r ∧ n ≤ 2086 ∧
      dnodeRemove s k filename = inodeDump (dnodeListingSet { s with d } k (n - 1 : Nat)) k
        (setNlink (inodeLoad (dnodeListingSet { s with d } k (n - 1 : Nat)) k) v) := by
  have range := marked.node_range live
  have short' : ushort k = k := ushort_nat (by omega)
  obtain ⟨n, d, listed, table, rows, _⟩ := listed_start marked live rep s.d
  generalize run : dnodeRemove s k filename = s'
  have fits := rep.room
  have distinct := rep.distinct
  have named := rep.short
  simp only [dnodeRemove, short', listed] at run
  rw [table] at fits distinct named ⊢
  replace fits : n ≤ 2086 := fits
  cases found : (rowsOf d n).find (Bytes.chars filename 0 13) with
  | none =>
    rw [dnodeRemoveLoop_none (s := { s with d }) fits named found] at run
    refine Or.inl ⟨rfl, ?_⟩
    rw [← run]
  | some v =>
    obtain ⟨r, within, hit, value⟩ := (Table.find_some distinct).mp found
    rw [dnodeRemoveLoop_hit (s := { s with d }) fits named distinct within hit] at run
    replace within : r < n := within
    have cast : (n : Int) - 1 = ((n - 1 : Nat) : Int) := by omega
    rw [removeEntry, short', cast] at run
    exact Or.inr ⟨n, r, _, _, by omega, within, rows, hit, rowsOf_dropped d n r, fits, run.symm⟩

theorem dnodeRemove_map (clean : 0 ∉ name) (short : name.length ≤ 13) :
    Represents (dnodeRemove s k (Bytes.cstr name tail)) k (Function.update m name none) ∧
      DirsKept L s (dnodeRemove s k (Bytes.cstr name tail)) k ∧
      (m name = none → (dnodeRemove s k (Bytes.cstr name tail)).disk = s.disk) := by
  have range := marked.node_range live
  have chars : Bytes.chars (Bytes.cstr name tail) 0 13 = name := chars_name clean short
  have limit : DENTRY_MAX_SIZE = 2086 := rfl
  rcases dnodeRemove_cases marked live rep (Bytes.cstr name tail) with
    ⟨absent, disk⟩ | ⟨n, r, d, v, _, within, rows, hit, dropped, fits, run⟩
  · obtain ⟨rep', kept⟩ := same_disk marked live rep disk
    rw [chars, rep.find_eq] at absent
    rw [← absent, Function.update_eq_self]
    exact ⟨rep', kept, fun _ => disk⟩
  · rw [chars] at hit
    obtain ⟨_, _, _, _, _, dir, startMarked, start⟩ := listed_start marked live rep d
    have ends : endOf (s.slots.cell k) = diEntSize * n := by
      rw [← start, endOf_dir dir, start, rows]
    generalize dnodeRemove s k (Bytes.cstr name tail) = s' at *
    obtain ⟨agree, dir', same⟩ := relisted (n := n - 1) startMarked live dir (by omega) v
      (.of_le (by rw [start, ends]; exact Nat.mul_le_mul_left _ (by omega))) run.symm
    rw [start] at same
    replace dropped := dropped.agree agree
    have loaded : inodeLoad s k = s.slots.cell k := inodeLoad_slot (by omega)
    have count : (listedRows s k).rows = n := by
      rw [← rows, ← loaded]
      exact dnodeListing_rows s k
    have find : ∀ c, (listedRows s' k).find c = Function.update m name none c := fun c => by
      rw [dropped.find_eq rep.distinct (by rw [count]; exact within), hit, Function.update_apply, rep.find_eq]
    have distinct := dropped.distinct rep.distinct
    have named := rep.short
    obtain ⟨fewer, old⟩ := dropped
    rw [count] at fewer old named
    refine ⟨.of_find dir' (by omega) distinct (fun i before => ?_) find, dirsKept marked same, fun absent => ?_⟩
    · rw [fewer] at before
      rw [(old i before).1]
      exact named _ (by split <;> omega)
    · have held := (rep.entry name ((listedRows s k).val r)).mpr ⟨r, by rw [count]; exact within, hit, rfl⟩
      rw [absent] at held
      exact nomatch held

/-- Directories refine finite maps: appending and removing entries updates the
map, looking up names reads it. -/
theorem dnode_refines : LooksUp s k m ∧
    (∀ item : Bytes, m (Bytes.chars item 0 14) = none → (Bytes.chars item 0 14).length ≤ 13 →
      size (s.stores.pool.cell k) + 1 < DENTRY_MAX_SIZE →
      pageCount (diEntSize * (size (s.stores.pool.cell k) + 1)) (endOf (s.stores.pool.cell k)) ≤
        s.stores.pool.freeCount 1024 →
      Represents (dnodeAppend s k item) k (Function.update m (Bytes.chars item 0 14) (some (item.get16 14))) ∧
        LooksUp (dnodeAppend s k item) k (Function.update m (Bytes.chars item 0 14) (some (item.get16 14))) ∧
        DirsKept L s (dnodeAppend s k item) k) ∧
    ∀ (name : List UInt8) (tail : Bytes), 0 ∉ name → name.length ≤ 13 →
      Represents (dnodeRemove s k (Bytes.cstr name tail)) k (Function.update m name none) ∧
        LooksUp (dnodeRemove s k (Bytes.cstr name tail)) k (Function.update m name none) ∧
        DirsKept L s (dnodeRemove s k (Bytes.cstr name tail)) k ∧
        (m name = none → (dnodeRemove s k (Bytes.cstr name tail)).disk = s.disk) := by
  have lower := (marked.node_range live).1
  refine ⟨rep.looksUp lower, fun item fresh short small room => ?_, fun name tail clean short => ?_⟩
  · obtain ⟨rep', kept⟩ := dnodeAppend_map marked live rep fresh short small room
    exact ⟨rep', rep'.looksUp lower, kept⟩
  · have removed : Represents (dnodeRemove s k (Bytes.cstr name tail)) k (Function.update m name none) ∧ _ ∧ _ :=
      dnodeRemove_map marked live rep clean short
    obtain ⟨rep', kept, same⟩ := removed
    exact ⟨rep', rep'.looksUp lower, kept, same⟩

end

/-- The listing of a directory shows its rows. -/
theorem Owned.listed_agree (owned : Owned L s.stores.pool) (live : k ∈ L) (dir : isdir (s.stores.pool.cell k) ≠ 0) :
    Table.Agree (dirTable s.stores.pool k) (listedRows s k) := by
  obtain ⟨d, listed, bytes⟩ := owned.dnodeListing_spec live dir
  have fits := owned.fits k live
  rw [endOf_dir dir] at bytes fits
  have table : listedRows s k = rowsOf d (size (s.stores.pool.cell k)) := by rw [listedRows, listed]
  rw [table]
  exact rowsOf_agree bytes fits rfl

/-- The directories of a file system in order are maps. -/
theorem DirOk.represents (owned : Owned L s.stores.pool) (live : k ∈ L) (ok : DirOk s.stores.pool k) :
    Represents s k (dirTable s.stores.pool k).find := by
  have agree := owned.listed_agree live ok.dir
  have fits := owned.fits k live
  rw [endOf_dir ok.dir] at fits
  have named := ok.named
  have rows : size (s.stores.pool.cell k) ≤ DENTRY_MAX_SIZE := by
    simp only [diEntSize, DENTRY_MAX_SIZE] at fits ⊢
    omega
  refine .of_find ?_ (agree.1.trans_le rows) (agree.distinct ok.distinct) (fun i before => ?_) fun c =>
    agree.find_eq
  · rw [owned.inodeLoad_eq live]
    exact ok.dir
  · rw [agree.1] at before
    rw [(agree.2 i before).1]
    exact (named i before).2

/-- The root directory of a new file system is given the entry `a`. -/
theorem dnode_refines_root : ∃ m, Represents (sfsInit Bytes.zero) 2 m ∧
    Represents (dnodeAppend (sfsInit Bytes.zero) 2 (diEntC (Bytes.cstr [97] Bytes.zero) 3)) 2
      (Function.update m [97] (some 3)) := by
  have initial := sfsInit_initial Bytes.zero
  generalize sfsInit Bytes.zero = s at *
  have good := initial.good
  have spare := initial.spare
  have root := initial.root_end
  have ok : DirOk s.stores.pool 2 := good.tree.top
  have two : size (s.stores.pool.cell 2) = 2 := by
    rw [endOf_dir ok.dir, diEntSize] at root
    omega
  have rep := ok.represents good.owned good.tree.root
  have name : Bytes.chars (diEntC (Bytes.cstr [97] Bytes.zero) 3) 0 14 = [97] := by decide
  have inum : (diEntC (Bytes.cstr [97] Bytes.zero) 3).get16 14 = 3 := by decide
  have absent := child_dnodeImage (c := [97]) initial.root
  rw [child_dir ok.dir (by decide) (by decide)] at absent
  have pages := pageCount_le (diEntSize * (size (s.stores.pool.cell 2) + 1)) (endOf (s.stores.pool.cell 2))
  have appended := ((dnode_refines good.owned.toMarked good.tree.root rep).2.1 (diEntC (Bytes.cstr [97] Bytes.zero) 3)
    (by rw [name]; exact absent) (by rw [name]; decide) (by rw [two]; decide) (by omega)).1
  rw [name, inum] at appended
  exact ⟨_, rep, appended⟩

end Sfs
