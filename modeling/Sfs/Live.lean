import Sfs.Frame
import Sfs.FirstFile
import Sfs.RoundTrip

namespace Sfs

/-- The lookups lead along path `q` to node `k`. -/
structure Leads (s : State) (q : Path) (k : Nat) : Prop where
  plain : ∀ c ∈ q, Plain c
  parents : Parents s q
  found : namei s q = k

/-- A file that is found under some path. -/
def LiveFile (s : State) (k : Nat) : Prop := ∃ q, Leads s q k ∧ isdir (inodeLoad s k) = 0

/-- A request that the VFS makes, that the block lists have room for, and for
which there are free inodes. -/
structure Ready (s : State) (op : Op) : Prop where
  vfs : Vfs s op
  fits : Fits s op
  inodes : inodeNeed s op ≤ spareInodes s

variable {L : Set Nat} {s s' : State} {fl : List Nat} {k m : Nat} {c : List UInt8} {q : Path} {op : Op}
  {ops : List Op} {disk : Bytes} {path : CPath} {tail : Bytes}

theorem Ready.permit (ready : Ready s op) : Permit s op := ⟨ready.vfs, ready.fits, Or.inr ready.inodes⟩

/-- The invariants hold in every state of a run of ready requests. -/
theorem run_ready (run : Run step Ready (sfsInit disk) ops s) : ∃ L fl, Good s L fl :=
  run_good (sfsInit_initial disk).good (run.mono fun _ _ => Ready.permit)

namespace Tree

variable (tree : Tree L s.stores.pool) (owned : Owned L s.stores.pool)

include tree owned

/-- All but the last node on the way are directories. -/
theorem parents_of_walk (plain : ∀ c ∈ q, Plain c) (walks : walk (child s.stores.pool) 2 q = some k) :
    Parents s q := by
  induction q using List.reverseRecOn generalizing k with
  | nil => exact fun pre x rest split => absurd split (by simp)
  | append_singleton cs c ih =>
    obtain ⟨m, above, last⟩ := Walk.concat_some.mp walks
    have plain' : ∀ x ∈ cs, Plain x := fun x member => plain x (List.mem_append_left _ member)
    have parents := ih plain' above
    intro pre x rest split
    rcases List.eq_nil_or_concat rest with rfl | ⟨rest, y, rfl⟩
    · obtain ⟨rfl, -⟩ := List.append_inj' split rfl
      obtain ⟨live, _⟩ := tree.reach above
      have found := namei_eq owned tree plain' parents
      rw [above, toInum] at found
      have range := owned.node_range live
      refine ⟨by omega, ?_⟩
      rw [found, owned.inodeLoad_eq live]
      exact (child_some last).1
    · rw [List.concat_eq_append, ← List.cons_append, ← List.append_assoc] at split
      exact parents pre x rest (List.append_inj' split rfl).1

/-- All above a path are directories that the entries lead to. -/
theorem parents_iff (plain : ∀ c ∈ q, Plain c) : Parents s q ↔ ∀ pre y rest, q = pre ++ y :: rest →
    ∃ k, walk (child s.stores.pool) 2 pre = some k ∧ isdir (s.stores.pool.cell k) ≠ 0 := by
  have plain' : ∀ pre y rest, q = pre ++ y :: rest → ∀ c ∈ pre, Plain c := fun pre y rest split c member =>
    plain c (split ▸ List.mem_append_left _ member)
  constructor
  · intro parents pre y rest split
    have parents' : Parents s pre := fun pre' y' rest' split' =>
      parents pre' y' (rest' ++ y :: rest) (by rw [split, split', List.append_assoc]; rfl)
    obtain ⟨positive, dir⟩ := parents pre y rest split
    rw [namei_eq owned tree (plain' pre y rest split) parents'] at positive dir
    cases reach : walk (child s.stores.pool) 2 pre with
    | none =>
      rw [reach, toInum] at positive
      exact absurd positive (by decide)
    | some k =>
      rw [reach, toInum, owned.inodeLoad_eq (tree.reach reach).1] at dir
      exact ⟨k, rfl, dir⟩
  · intro dirs pre y rest split
    obtain ⟨k, reach, dir⟩ := dirs pre y rest split
    obtain ⟨live, _⟩ := tree.reach reach
    have parents := tree.parents_of_walk owned (plain' pre y rest split) reach
    have range := owned.node_range live
    refine ⟨?_, ?_⟩ <;> rw [namei_eq owned tree (plain' pre y rest split) parents, reach, toInum]
    · omega
    · rwa [owned.inodeLoad_eq live]

/-- The lookups follow the entries. -/
theorem leads_iff (plain : ∀ c ∈ q, Plain c) : Leads s q k ↔ walk (child s.stores.pool) 2 q = some k := by
  constructor
  · rintro ⟨_, parents, found⟩
    rw [namei_eq owned tree plain parents] at found
    cases walks : walk (child s.stores.pool) 2 q with
    | none =>
      rw [walks, toInum] at found
      omega
    | some m =>
      rw [walks, toInum] at found
      exact congrArg some (Int.ofNat.inj found)
  · intro walks
    have parents := tree.parents_of_walk owned plain walks
    refine ⟨plain, parents, ?_⟩
    rw [namei_eq owned tree plain parents, walks, toInum]

theorem reached (leads : Leads s q k) : walk (child s.stores.pool) 2 q = some k :=
  (tree.leads_iff owned leads.plain).mp leads

/-- A file that is found is one of the nodes. -/
theorem liveFile (found : LiveFile s k) : k ∈ L ∧ isdir (s.stores.pool.cell k) = 0 := by
  obtain ⟨q, leads, file⟩ := found
  obtain ⟨live, _⟩ := tree.reach (tree.reached owned leads)
  rw [owned.inodeLoad_eq live] at file
  exact ⟨live, file⟩

/-- A name in the root directory may be asked for. -/
theorem proper_top (plain : Plain c) : Proper s (render [c]) [c] := by
  refine ⟨rfl, by simpa using plain, fun pre x rest split => ?_⟩
  obtain rfl : pre = [] := by
    cases pre with
    | nil => rfl
    | cons y pre =>
      have lengths := congrArg List.length split
      simp at lengths
  have loaded : inodeLoad s (2 : Nat) = s.stores.pool.cell 2 := owned.inodeLoad_eq tree.root
  have two : (2 : Int) = (2 : Nat) := rfl
  refine ⟨?_, ?_⟩ <;> rw [namei_root]
  · decide
  · rw [two, loaded]
    exact tree.top.dir

end Tree

/-- The listing of a file shows its blocks. -/
theorem Owned.listedFile_eq (owned : Owned L s.stores.pool) (live : k ∈ L) (file : isdir (s.stores.pool.cell k) = 0) :
    listedFile s k = blocksOf s.stores.pool k := by
  obtain ⟨f, listed, filled, _⟩ := owned.fnodeListing_spec live file
  have fits := owned.fits k live
  have ends := endOf_file file
  rw [ends] at filled fits
  rw [listedFile, listed, blocksOf]
  exact List.map_congr_left fun i member => block_congr filled fits (List.mem_range.mp member)

/-- Node `k` is a file in the root directory under the name `c`, and nothing else is there. -/
structure FirstNode (s : State) (k : Nat) (c : List UInt8) : Prop where
  owned : Owned (insert k {2}) s.stores.pool
  tree : Tree (insert k {2}) s.stores.pool
  leads : child s.stores.pool 2 c = some k
  plain : Plain c
  file : isdir (s.stores.pool.cell k) = 0

theorem FirstFile.node (first : FirstFile s k c) : FirstNode s k c :=
  ⟨first.good.owned, first.good.tree, first.leads, first.plain, first.file⟩

namespace FirstNode

variable (node : FirstNode s k c)

include node

omit node in
theorem live : k ∈ insert k ({2} : Set Nat) := Set.mem_insert _ _

theorem walks : walk (child s.stores.pool) 2 [c] = some k := by
  rw [walk, node.leads]
  rfl

theorem reached : Leads s [c] k := (node.tree.leads_iff node.owned (by simpa using node.plain)).mpr node.walks

theorem liveFile : LiveFile s k := by
  refine ⟨[c], node.reached, ?_⟩
  rw [node.owned.inodeLoad_eq live]
  exact node.file

theorem found : (pathToInum s (render [c])).1.inum = k := node.reached.found

theorem not_dirAt : ¬ DirAt s [c] := by
  rintro ⟨_, dir⟩
  rw [node.reached.found, node.owned.inodeLoad_eq live] at dir
  exact dir node.file

/-- Both a write and a truncation of the file may be asked for. -/
theorem vfs_write (buf : Bytes) (size offset : Nat) : Vfs s (.write (render [c]) buf size offset) :=
  ⟨[c], node.tree.proper_top node.owned node.plain, node.not_dirAt⟩

theorem vfs_truncate (offset : Nat) : Vfs s (.truncate (render [c]) offset) :=
  ⟨[c], node.tree.proper_top node.owned node.plain, node.not_dirAt⟩

/-- The entry stays when the file is given another list. -/
theorem repaged {n : Nat} {f : Bytes} (repaged : Repaged (insert k {2}) s.stores.pool s'.stores.pool k n f) :
    FirstNode s' k c := by
  have file : isdir (s'.stores.pool.cell k) = 0 := by
    rw [repaged.resized.isdir_eq]
    exact node.file
  refine ⟨repaged.owned, repaged.tree_kept node.owned node.tree live node.file, ?_, node.plain, file⟩
  rw [repaged.child_eq node.owned node.tree live node.file node.tree.root]
  exact node.leads

end FirstNode

theorem FirstFile.ready_write (first : FirstFile s k c) (buf : Bytes) : Ready s (.write (render [c]) buf 600 0) := by
  refine ⟨first.node.vfs_write buf 600 0, fun _ => ⟨by decide, by decide, by decide, ?_⟩, ?_⟩
  · exact (show (int32 (0 : Nat)).toNat / 512 = 0 by decide).le.trans (Nat.zero_le _)
  · have pages := pageCount_le (blknumSize * writeRows (size (s.stores.pool.cell k)) (spareBlocks s)
      (int32 (0 : Nat)).toNat (int32 (600 : Nat)).toNat) (blknumSize * size (s.stores.pool.cell k))
    have spare := first.spare
    simp only [inodeNeed, first.found, Int.toNat_natCast, growNeed, spareInodes]
    omega

theorem plain_a : Plain [97] := ⟨by decide, by decide, by decide, by decide, by decide⟩

/-- A request that makes a file is ready on a new file system. -/
theorem ready_create (disk tail : Bytes) (plain : Plain c) (short : c.length ≤ 13) :
    Ready (sfsInit disk) (.create (render [c]) tail) := by
  have initial := sfsInit_initial disk
  have good := initial.good
  have spare := initial.spare
  have root := initial.root_end
  have empty := child_dnodeImage (c := c) initial.root
  generalize sfsInit disk = s at *
  obtain ⟨s₁, found, _⟩ := pathToInum_spec [] good.owned good.tree (by simp) plain rfl good.tree.top.dir
  rw [empty, List.nil_append] at found
  have two : size (s.stores.pool.cell 2) = 2 := by
    rw [endOf_dir good.tree.top.dir, diEntSize] at root
    omega
  refine ⟨⟨[], c, good.tree.proper_top good.owned plain, short⟩, trivial, ?_⟩
  have need : inodeNeed s (.create (render [c]) tail) = linkNeed s.stores.pool 2 := by
    simp only [inodeNeed, found]
    exact if_neg (by rw [toInum_none]; omega)
  rw [need, spareInodes, spare, linkNeed, two]
  decide

theorem ready_first : Ready (sfsInit Bytes.zero) (.create (render [[97]]) Bytes.zero) :=
  ready_create _ _ plain_a (by decide)

theorem run_first : Run step Ready (sfsInit Bytes.zero) [.create (render [[97]]) Bytes.zero] firstState :=
  .next .nil ready_first

end Sfs
