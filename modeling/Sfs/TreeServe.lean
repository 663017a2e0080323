import Sfs.Defined
import Sfs.Files
import Sfs.Names
import Sfs.Places

namespace Sfs

open FileTree Splice

/-- What a request for path `q` asks of the tree of files. -/
def treeRequest (q : Path) : Op → TreeRequest (List UInt8) UInt8
  | .create _ _ => .make q (.file [])
  | .mkdir _ _ => .make q .dir
  | .unlink _ _ | .rmdir _ _ => .drop q
  | .write _ buf size offset => .write q offset ((List.range size).map buf)
  | .truncate _ offset => .cut q offset
  | .read _ size offset => .read q offset size
  | .getattr _ | .open _ => .stat q
  | .readdir _ => .list q

def Asks (op : Op) (request : TreeRequest (List UInt8) UInt8) : Prop :=
  ∃ q, (∀ c ∈ q, Plain c) ∧ op.path = render q ∧ treeRequest q op = request

/-- The result for answers without data. -/
def codeOf : TreeAnswer (List UInt8) UInt8 → Option Int
  | .done => some 0
  | .present => some (-EEXIST)
  | .absent => some (-ENOENT)
  | .wrote count => some count
  | _ => none

/-- What is returned for a request is the answer. -/
inductive Replies (s : State) : Op → TreeAnswer (List UInt8) UInt8 → Prop
  | code {op : Op} {answer : TreeAnswer (List UInt8) UInt8} : codeOf answer = some (op.run s).1 → Replies s op answer
  | read {path : CPath} {size offset : Nat} {x : List UInt8} :
    (sfsRead s path size offset).1 = ⟨x.length, x⟩ → Replies s (.read path size offset) (.bytes x)
  | dir {path : CPath} : (sfsGetattr s path).1.1 = 0 → (sfsGetattr s path).1.2.1 = 0o40755 →
    Replies s (.getattr path) (.node .dir)
  | file {path : CPath} {x : List UInt8} : (sfsGetattr s path).1.1 = 0 → (sfsGetattr s path).1.2.1 = 0o100644 →
    (sfsGetattr s path).1.2.2.2.2 = x.length → Replies s (.getattr path) (.node (.file x))
  | «open» {path : CPath} {n : TreeNode UInt8} : (sfsOpen s path).1 = 0 → Replies s (.open path) (.node n)
  | readdir {path : CPath} {xs : Set (List UInt8)} {names : List (List UInt8)} :
    (sfsReaddir s path).1 = (0, [46] :: [46, 46] :: names) → names.Nodup → (∀ x, x ∈ names ↔ x ∈ xs) →
    Replies s (.readdir path) (.names xs)

/-- A request within the limits that the code sets, on a path below directories. -/
structure Honoured (s : State) (op : Op) : Prop extends InLimits s op where
  reads : ReadVfs s op

variable {L L' : Set Nat} {s s' s₁ : State} {t : FileTree (List UInt8) UInt8} {fl fl' : List Nat} {k m n q r : Nat}
  {x buf tail : Bytes} {c : List UInt8} {cs pa : Path} {path : CPath} {op : Op} {size offset : Nat}

/-- A request is answered as the tree `t` answers it. -/
def Answered (s : State) (t : FileTree (List UInt8) UInt8) (op : Op) : Prop :=
  ∃ request answer t', Asks op request ∧ t.Serves request answer t' ∧ Replies s op answer ∧ Shows (step s op) t'

theorem nodeOf_new (node : s'.stores.pool.cell q = x) (file : isdir x = 0) (empty : Sfs.size x = 0) :
    nodeOf s'.stores q = .file [] := by
  rw [nodeOf_file (by rw [node, file]), contentOf, blocksOf, node, empty, List.range_zero, List.map_nil, List.flatMap_nil,
    List.take_nil]

/-- The rows of a directory past the special ones are its names, each once. -/
theorem DirOk.names_rows {p : Pool Bytes} (ok : DirOk p k) : ∃ names,
    (List.range (Sfs.size (p.cell k))).map (entName p k) = [46] :: [46, 46] :: names ∧ names.Nodup ∧
      ∀ x, x ∈ names ↔ child p k x ≠ none := by
  have two := ok.two
  refine ⟨(List.range (Sfs.size (p.cell k) - 2)).map fun i => entName p k (i + 2), ?_, ?_, fun x => ?_⟩
  · have split : Sfs.size (p.cell k) = Sfs.size (p.cell k) - 2 + 1 + 1 := by omega
    rw [split, List.range_succ_eq_map, List.range_succ_eq_map, ← split]
    simp only [List.map_cons, List.map_map, ok.dot, ok.dotdot]
    rfl
  · refine List.Nodup.map_on (fun i hi j hj same => ?_) List.nodup_range
    have hi := List.mem_range.mp hi
    have hj := List.mem_range.mp hj
    have := ok.distinct (i + 2) (show i + 2 < Sfs.size (p.cell k) by omega) (j + 2)
      (show j + 2 < Sfs.size (p.cell k) by omega) same
    omega
  · constructor
    · intro member
      obtain ⟨i, within, rfl⟩ := List.mem_map.mp member
      have within := List.mem_range.mp within
      rw [ok.child_row (by omega) (by omega)]
      exact Option.some_ne_none _
    · intro there
      obtain ⟨m, leads⟩ := Option.ne_none_iff_exists'.mp there
      obtain ⟨_, notDot, notDotdot, found⟩ := child_some leads
      obtain ⟨i, within, name, _⟩ := (Table.find_some ok.distinct).mp found
      have within : i < Sfs.size (p.cell k) := within
      have name : entName p k i = x := name
      have past : 2 ≤ i := by
        by_contra early
        obtain rfl | rfl : i = 0 ∨ i = 1 := by omega
        · exact notDot (name.symm.trans ok.dot)
        · exact notDotdot (name.symm.trans ok.dotdot)
      exact List.mem_map.mpr ⟨i - 2, List.mem_range.mpr (by omega), by rw [Nat.sub_add_cancel past, name]⟩

/-- The names that a listing gives are those of the rows. -/
theorem Owned.listed_names (owned : Owned L s.stores.pool) (live : k ∈ L) (dir : isdir (s.stores.pool.cell k) ≠ 0) :
    (List.range (dnodeListing s k).1).map (fun i => Bytes.chars (dnodeListing s k).2.d (diEntSize * i) 14) =
      (List.range (Sfs.size (s.stores.pool.cell k))).map (entName s.stores.pool k) := by
  obtain ⟨rows, agree⟩ := owned.listed_agree live dir
  rw [listedRows] at rows agree
  generalize dnodeListing s k = listed at *
  have length : listed.1 = Sfs.size (s.stores.pool.cell k) := rows
  rw [length]
  exact List.map_congr_left fun i within => (agree i (List.mem_range.mp within)).1

/-- What is not there is reported, and nothing changes. -/
theorem Shows.absent_answered {request : TreeRequest (List UInt8) UInt8} (shows : Shows s t) (asks : Asks op request)
    (absent : walk (child s.stores.pool) 2 request.path = Option.none) (other : ¬ request.IsMake)
    (result : (op.run s).1 = -ENOENT) (glance : Glance s (step s op)) : Answered s t op :=
  ⟨request, .absent, t, asks, .absent (shows.none absent) other, .code (by rw [result]; rfl), shows.glance glance⟩

theorem sfsGetattr_absent (absent : (pathToInum s path).1.inum < 0) :
    sfsGetattr s path = ((-ENOENT, 0, 0, 0, 0), (pathToInum s path).2) := if_pos absent

theorem sfsReaddir_absent (absent : (pathToInum s path).1.inum < 0) :
    sfsReaddir s path = ((-ENOENT, []), (pathToInum s path).2) := if_pos absent

theorem sfsRead_absent (absent : (pathToInum s path).1.inum < 0) (size offset : Nat) :
    sfsRead s path size offset = (⟨-ENOENT, []⟩, (pathToInum s path).2) := if_pos absent

/-- What is there already is reported, and nothing changes. -/
theorem Shows.present_answered {p : Path} {n : TreeNode UInt8} (shows : Shows s t) (asks : Asks op (.make p n))
    (there : walk (child s.stores.pool) 2 p = Option.some k) (result : (op.run s).1 = -EEXIST) (glance : Glance s (step s op)) :
    Answered s t op :=
  ⟨_, .present, t, asks, .present (by rw [shows.some there]; exact Option.some_ne_none _),
    .code (by rw [result]; rfl), shows.glance glance⟩

namespace Good

variable (good : Good s L fl) (shows : Shows s t)

include good shows

theorem create_answered (permit : Permit s (.create path tail)) : Answered s t (.create path tail) := by
  obtain ⟨⟨cs, c, proper, short⟩, _, room⟩ := permit
  obtain rfl := proper.eq
  obtain ⟨m, walks, live, ok, outcome⟩ := sfsCreate_spec good proper short room
  have located : Located L s (render (cs ++ [c])) cs m c := ⟨rfl, proper.plain, walks, live, ok⟩
  cases leads : child s.stores.pool m c with
  | some k =>
    obtain ⟨result, glance⟩ := outcome.present leads
    exact shows.present_answered ⟨_, proper.plain, rfl, rfl⟩ (located.walk_child.trans leads) result glance
  | none =>
    obtain ⟨q, _, zero, _, made, _⟩ := sfsCreate_new good proper short room walks leads
    obtain ⟨fresh, file⟩ := fnodeImage_fresh (q := q) (m := m)
    have shown := located.shows_made shows good made fresh leads (Or.inl file) (located.shows_dir shows)
      (located.shows_absent shows leads)
    have empty : Sfs.size ((fnodeImage q m).take 128) = 0 := (Bytes.get16_take (by omega)).trans size_fnodeImage
    simp only [nodeOf_new (made.node good live) file empty] at shown
    exact ⟨_, _, _, ⟨_, proper.plain, rfl, rfl⟩, .made (located.shows_dir shows) (located.shows_absent shows leads),
      .code (congrArg some zero.symm), shown⟩

theorem mkdir_answered (permit : Permit s (.mkdir path tail)) : Answered s t (.mkdir path tail) := by
  obtain ⟨⟨cs, c, proper, short⟩, _, room⟩ := permit
  obtain rfl := proper.eq
  obtain ⟨m, walks, live, ok, outcome⟩ := sfsMkdir_spec good proper short room
  have located : Located L s (render (cs ++ [c])) cs m c := ⟨rfl, proper.plain, walks, live, ok⟩
  cases leads : child s.stores.pool m c with
  | some k =>
    obtain ⟨result, glance⟩ := outcome.present leads
    exact shows.present_answered ⟨_, proper.plain, rfl, rfl⟩ (located.walk_child.trans leads) result glance
  | none =>
    obtain ⟨q, _, zero, _, made, _⟩ := sfsMkdir_new good proper short room walks leads
    obtain ⟨fresh, dir⟩ := dnodeImage_fresh (q := q) (m := m)
    have one : isdir ((dnodeImage q m).take 128) = 1 := (Bytes.take_apply_of_lt (by omega)).trans isdir_dnodeImage
    have shown := located.shows_made shows good made fresh leads (Or.inr one) (located.shows_dir shows)
      (located.shows_absent shows leads)
    simp only [nodeOf_dir (show isdir ((sfsMkdir s (render (cs ++ [c])) tail).2.stores.pool.cell q) ≠ 0 by
      rw [made.node good live]; exact dir)] at shown
    exact ⟨_, _, _, ⟨_, proper.plain, rfl, rfl⟩, .made (located.shows_dir shows) (located.shows_absent shows leads),
      .code (congrArg some zero.symm), shown⟩

/-- An entry is to go. -/
theorem drop_answered (located : Located L s op.path cs m c) (asks : Asks op (.drop (cs ++ [c])))
    (absent : child s.stores.pool m c = none → (op.run s).1 = -ENOENT ∧ Glance s (step s op))
    (present : ∀ k, child s.stores.pool m c = some k → ∃ L' fl' r, (op.run s).1 = 0 ∧
      entName s.stores.pool m r = c ∧ r < Sfs.size (s.stores.pool.cell m) ∧ Removal L L' s (step s op) k m r fl') :
    Answered s t op := by
  cases leads : child s.stores.pool m c with
  | none =>
    obtain ⟨result, glance⟩ := absent leads
    exact shows.absent_answered asks (located.walk_child.trans leads) id result glance
  | some k =>
    obtain ⟨L', fl', r, zero, hit, within, removal⟩ := present k leads
    have below : cs ++ [c] ≠ [] := by simp
    refine ⟨_, _, _, asks, .dropped below ?_, .code (congrArg some zero.symm),
      located.shows_removal shows good removal leads within hit below⟩
    rw [located.shows_there shows leads]
    exact Option.some_ne_none _

theorem unlink_answered (permit : Permit s (.unlink path tail)) : Answered s t (.unlink path tail) := by
  obtain ⟨cs, c, proper, notDir⟩ := permit.vfs
  obtain rfl := proper.eq
  obtain ⟨m, walks, live, ok, outcome⟩ := sfsUnlink_spec good proper tail notDir
  exact good.drop_answered shows ⟨rfl, proper.plain, walks, live, ok⟩ ⟨_, proper.plain, rfl, rfl⟩ outcome.gone
    fun k => outcome.present

theorem rmdir_answered (permit : Permit s (.rmdir path tail)) : Answered s t (.rmdir path tail) := by
  obtain ⟨cs, c, proper, notFile⟩ := permit.vfs
  obtain rfl := proper.eq
  obtain ⟨m, walks, live, ok, outcome⟩ := sfsRmdir_spec good proper tail notFile
  exact good.drop_answered shows ⟨rfl, proper.plain, walks, live, ok⟩ ⟨_, proper.plain, rfl, rfl⟩ outcome.gone
    fun k => outcome.present

end Good

namespace Settled

variable (settled : Settled s L fl) (shows : Shows s t)

include settled shows

theorem write_answered (limits : InLimits s (.write path buf size offset)) :
    Answered s t (.write path buf size offset) := by
  have max : FCONTENT_MAX_SIZE = 4272128 := rfl
  have permit := settled.permit limits
  obtain ⟨fl₂, settled'⟩ := settled.written permit limits.limited
  obtain ⟨cs, m, c, located, outcome⟩ := settled.toGood.sfsWrite_spec permit
  have limited := limits.limited
  obtain rfl := located.eq
  rw [Limited, step, Op.run] at limited
  rw [step, Op.run] at settled'
  generalize run : sfsWrite s (render (cs ++ [c])) buf size offset = o at *
  obtain ⟨r, s'⟩ := o
  have result : (Op.run s (.write (render (cs ++ [c])) buf size offset)).1 = r := congrArg Prod.fst run
  have after : step s (.write (render (cs ++ [c])) buf size offset) = s' := congrArg Prod.snd run
  cases outcome with
  | absent absent glance =>
    exact shows.absent_answered ⟨_, located.plain, rfl, rfl⟩ (located.walk_child.trans absent) id result (after ▸ glance)
  | @written k e taken fl' s₁ _ leads file glance stored stop errno =>
    obtain ⟨found, loaded, live, lower⟩ := settled.path_loaded located leads
    obtain ⟨within, limit, _⟩ := limited (by rw [found]; omega)
    have covered := settled.covered k live file
    have same := glance.stores_eq
    rw [found, loaded] at within
    rw [int32_of_mem (x := size) (by omega) (by omega), int32_of_mem (x := offset) (by omega) (by omega),
      Int.toNat_natCast, Int.toNat_natCast] at stored stop
    rw [int32_of_mem (x := size) (by omega) (by omega), Int.toNat_natCast] at result
    have change := stored.fileStep.of_glance glance
    have file' : isdir (s'.stores.pool.cell k) = 0 := (change.isdir_eq settled.toGood live live).trans file
    have consistent := change.consistent settled.wellFormed.toConsistent live file (settled'.covered k live file')
    rw [Nat.min_eq_left (lastBlock_le limit), Nat.max_eq_right (start_le_lastBlock offset size)] at stop
    have content := stored_content stored (glance.consistent settled.wellFormed.toConsistent) consistent live
      (by rw [same]; exact file) (by rw [same]; exact within) limit stop.ge
    have there := (located.shows_there shows leads).trans (congrArg some (nodeOf_file file))
    have shown := located.shows_changed shows settled.toGood change leads file there
    simp only [content, same] at shown
    rw [← after] at shown
    refine ⟨_, _, _, ⟨_, located.plain, rfl, rfl⟩, .written there ?_, .code ?_, shown⟩
    · rw [length_contentOf covered]
      exact within
    · rw [result, codeOf, List.length_map, List.length_range]
      rfl
  | short leads _ _ _ failed _ _ =>
    obtain ⟨found, _, _, lower⟩ := settled.path_loaded located leads
    exact absurd failed (limited (by rw [found]; omega)).2.2

theorem truncate_answered (limits : InLimits s (.truncate path offset)) : Answered s t (.truncate path offset) := by
  have permit := settled.permit limits
  have limited := limits.limited
  obtain ⟨cs, m, c, located, outcome⟩ := settled.toGood.sfsTruncate_spec permit
  obtain rfl := located.eq
  rw [Limited] at limited
  have shrunk : ∀ k, child s.stores.pool m c = some k → isdir (s.stores.pool.cell k) = 0 →
      offset < (contentOf s.stores k).length ∧
      contentOf (sfsTruncate s (render (cs ++ [c])) offset).2.stores k = (contentOf s.stores k).take offset := by
    intro k leads file
    obtain ⟨found, loaded, live, lower⟩ := settled.path_loaded located leads
    have within := limited (by rw [found]; omega)
    rw [found, loaded] at within
    have covered := settled.covered k live file
    exact ⟨by rwa [length_contentOf covered],
      (sfsTruncate_shrunk settled.wellFormed.accounted live file covered found within).content⟩
  generalize run : sfsTruncate s (render (cs ++ [c])) offset = o at *
  obtain ⟨r, s'⟩ := o
  have result : (Op.run s (.truncate (render (cs ++ [c])) offset)).1 = r := congrArg Prod.fst run
  have after : step s (.truncate (render (cs ++ [c])) offset) = s' := congrArg Prod.snd run
  have changed : ∀ k n fl', child s.stores.pool m c = some k → isdir (s.stores.pool.cell k) = 0 →
      FileStep L s s' k n fl fl' → r = 0 → Answered s t (.truncate (render (cs ++ [c])) offset) :=
    fun k n fl' leads file change zero => by
      obtain ⟨within, content⟩ := shrunk k leads file
      have there := (located.shows_there shows leads).trans (congrArg some (nodeOf_file file))
      have shown := located.shows_changed shows settled.toGood change leads file there
      simp only [content] at shown
      rw [← after] at shown
      exact ⟨_, _, _, ⟨_, located.plain, rfl, rfl⟩, .cut there within, .code (by rw [result, zero]; rfl), shown⟩
  cases outcome with
  | absent absent glance =>
    exact shows.absent_answered ⟨_, located.plain, rfl, rfl⟩ (located.walk_child.trans absent) id result (after ▸ glance)
  | shrunk leads file _ _ change => exact changed _ _ _ leads file change rfl
  | grown leads file _ _ _ change => exact changed _ _ _ leads file change rfl

theorem read_answered (proper : Proper s path pa) (notDir : ¬ DirAt s pa) (small : offset + size < 2147483648) :
    Answered s t (.read path size offset) := by
  obtain rfl := proper.eq
  have found : (pathToInum s (render pa)).1.inum = toInum (walk (child s.stores.pool) 2 pa) :=
    proper.namei_eq settled.toGood
  have glance := pathToInum_glance s (render pa)
  cases reach : walk (child s.stores.pool) 2 pa with
  | none =>
    rw [reach] at found
    have run := sfsRead_absent (s := s) (by rw [found]; decide) size offset
    exact shows.absent_answered ⟨_, proper.plain, rfl, rfl⟩ reach id (congrArg (fun o => o.1.size) run) sfsRead_glance
  | some k =>
    obtain ⟨live, _⟩ := settled.tree.reach reach
    have file := not_dirAt settled.toGood proper notDir reach
    have covered := settled.covered k live file
    rw [reach, toInum] at found
    have there := (shows.some reach).trans (congrArg some (nodeOf_file file))
    refine ⟨_, _, t, ⟨_, proper.plain, rfl, rfl⟩, .read there, .read ?_, shows.glance sfsRead_glance⟩
    generalize after : (pathToInum s (render pa)).2 = s₁ at glance
    have same := glance.stores_eq
    have run : (sfsRead s (render pa) size offset).1 = (fstreamRead s₁ k size offset).1 := by
      rw [sfsRead, found, after, if_neg (by simp), int32_of_mem (x := size) (by omega) (by omega),
        int32_of_mem (x := offset) (by omega) (by omega)]
    have consistent := glance.consistent settled.wellFormed.toConsistent
    have spec : (fstreamRead s₁ k size offset).1 = _ := fstreamRead_spec consistent.owned live (by rw [same]; exact file)
      small (by rw [same]; exact covered) (by rw [same]; exact settled.blocks.area k live file)
    rw [same] at spec
    rw [run, spec, List.length_take, List.length_drop, length_contentOf covered]

end Settled

namespace Tree

variable (tree : Tree L s.stores.pool) (owned : Owned L s.stores.pool)

include tree owned

/-- What is reported of the node that a path leads to. -/
theorem sfsGetattr_there (proper : Proper s (render pa) pa) (reach : walk (child s.stores.pool) 2 pa = some k) :
    (sfsGetattr s (render pa)).1 = (0, if isdir (s.stores.pool.cell k) = 1
      then (0o40755, nlink (s.stores.pool.cell k), 0, Sfs.size (s.stores.pool.cell k))
      else (0o100644, nlink (s.stores.pool.cell k), Sfs.size (s.stores.pool.cell k), fsize (s.stores.pool.cell k))) := by
  obtain ⟨live, _⟩ := tree.reach reach
  have range := owned.node_range live
  have found : (pathToInum s (render pa)).1.inum = toInum (walk (child s.stores.pool) 2 pa) :=
    namei_eq owned tree proper.plain proper.parents
  have glance := pathToInum_glance s (render pa)
  rw [reach, toInum] at found
  generalize after : (pathToInum s (render pa)).2 = s₁ at glance
  have loaded : inodeLoad s₁ k = s.stores.pool.cell k := by
    rw [← glance.stores_eq] at owned ⊢
    exact owned.inodeLoad_eq live
  rw [sfsGetattr, found, after, if_neg (by simp), ushort_nat (by omega), inodeGetAttr, loaded]

/-- The rows of the directory that a path leads to are listed. -/
theorem sfsReaddir_there (proper : Proper s (render pa) pa) (reach : walk (child s.stores.pool) 2 pa = some k)
    (dir : isdir (s.stores.pool.cell k) ≠ 0) : (sfsReaddir s (render pa)).1 =
      (0, (List.range (Sfs.size (s.stores.pool.cell k))).map (entName s.stores.pool k)) := by
  obtain ⟨live, _⟩ := tree.reach reach
  have range := owned.node_range live
  have found : (pathToInum s (render pa)).1.inum = toInum (walk (child s.stores.pool) 2 pa) :=
    namei_eq owned tree proper.plain proper.parents
  have glance := pathToInum_glance s (render pa)
  rw [reach, toInum] at found
  generalize after : (pathToInum s (render pa)).2 = s₁ at glance
  have same := glance.stores_eq
  have rows : (List.range (dnodeListing s₁ k).1).map (fun i => Bytes.chars (dnodeListing s₁ k).2.d (diEntSize * i) 14) =
      (List.range (Sfs.size (s.stores.pool.cell k))).map (entName s.stores.pool k) := by
    rw [← same] at owned dir ⊢
    exact owned.listed_names live dir
  rw [← rows, sfsReaddir, found, after, if_neg (by simp), ushort_nat (by omega)]

end Tree

namespace Good

variable (good : Good s L fl) (shows : Shows s t)

include good shows

theorem open_answered (proper : Proper s path pa) : Answered s t (.open path) := by
  obtain rfl := proper.eq
  have found : (pathToInum s (render pa)).1.inum = toInum (walk (child s.stores.pool) 2 pa) := proper.namei_eq good
  have glance : Glance s (step s (.open (render pa))) := pathToInum_glance s (render pa)
  cases reach : walk (child s.stores.pool) 2 pa with
  | none =>
    rw [reach] at found
    have result : (sfsOpen s (render pa)).1 = -ENOENT := by
      simp only [sfsOpen, found, toInum]
      exact if_pos (by decide)
    exact shows.absent_answered ⟨_, proper.plain, rfl, rfl⟩ reach id result glance
  | some k =>
    rw [reach] at found
    have result : (sfsOpen s (render pa)).1 = 0 := by
      simp only [sfsOpen, found, toInum]
      exact if_neg (by simp)
    exact ⟨_, _, t, ⟨_, proper.plain, rfl, rfl⟩, .stat (shows.some reach), .open result, shows.glance glance⟩

theorem getattr_answered (covered : ∀ k ∈ L, isdir (s.stores.pool.cell k) = 0 →
      fsize (s.stores.pool.cell k) ≤ 512 * Sfs.size (s.stores.pool.cell k)) (proper : Proper s path pa) :
    Answered s t (.getattr path) := by
  obtain rfl := proper.eq
  have found : (pathToInum s (render pa)).1.inum = toInum (walk (child s.stores.pool) 2 pa) := proper.namei_eq good
  have glance := pathToInum_glance s (render pa)
  cases reach : walk (child s.stores.pool) 2 pa with
  | none =>
    rw [reach] at found
    have result : (sfsGetattr s (render pa)).1.1 = -ENOENT := by rw [sfsGetattr_absent (by rw [found]; decide)]
    exact shows.absent_answered ⟨_, proper.plain, rfl, rfl⟩ reach id result sfsGetattr_glance
  | some k =>
    obtain ⟨live, _⟩ := good.tree.reach reach
    have run := good.tree.sfsGetattr_there good.owned proper reach
    have shown := shows.some reach
    rcases shows.kind pa k reach with file | dir
    · rw [if_neg (by rw [file]; decide)] at run
      rw [nodeOf_file file] at shown
      refine ⟨_, _, t, ⟨_, proper.plain, rfl, rfl⟩, .stat shown, .file (congrArg (·.1) run) (congrArg (·.2.1) run) ?_,
        shows.glance sfsGetattr_glance⟩
      rw [run, length_contentOf (covered k live file)]
    · rw [if_pos dir] at run
      rw [nodeOf_dir (by rw [dir]; decide)] at shown
      exact ⟨_, _, t, ⟨_, proper.plain, rfl, rfl⟩, .stat shown, .dir (congrArg (·.1) run) (congrArg (·.2.1) run),
        shows.glance sfsGetattr_glance⟩

theorem readdir_answered (proper : Proper s path pa) (notFile : ¬ FileAt s pa) : Answered s t (.readdir path) := by
  obtain rfl := proper.eq
  have found : (pathToInum s (render pa)).1.inum = toInum (walk (child s.stores.pool) 2 pa) := proper.namei_eq good
  have glance := pathToInum_glance s (render pa)
  cases reach : walk (child s.stores.pool) 2 pa with
  | none =>
    rw [reach] at found
    have result : (sfsReaddir s (render pa)).1.1 = -ENOENT := by rw [sfsReaddir_absent (by rw [found]; decide)]
    exact shows.absent_answered ⟨_, proper.plain, rfl, rfl⟩ reach id result sfsReaddir_glance
  | some k =>
    obtain ⟨live, isOk⟩ := good.tree.reach reach
    have dir := not_fileAt good proper notFile reach
    have ok := isOk dir
    have shown := shows.some reach
    rw [nodeOf_dir dir] at shown
    obtain ⟨names, split, nodup, member⟩ := ok.names_rows
    have run := good.tree.sfsReaddir_there good.owned proper reach dir
    refine ⟨_, _, t, ⟨_, proper.plain, rfl, rfl⟩, .list shown, .readdir ?_ nodup fun x => ?_, shows.glance sfsReaddir_glance⟩
    · rw [run, split]
    · rw [member, Set.mem_ofPred_eq, shows.node, Walk.concat, reach, Option.bind_some, ne_eq, ne_eq, Option.map_eq_none_iff]

end Good

theorem Settled.answered (settled : Settled s L fl) (shows : Shows s t) (honoured : Honoured s op) : Answered s t op := by
  have permit := settled.permit honoured.toInLimits
  have reads := honoured.reads
  cases op with
  | create => exact settled.toGood.create_answered shows permit
  | mkdir => exact settled.toGood.mkdir_answered shows permit
  | unlink => exact settled.toGood.unlink_answered shows permit
  | rmdir => exact settled.toGood.rmdir_answered shows permit
  | write => exact settled.write_answered shows honoured.toInLimits
  | truncate => exact settled.truncate_answered shows honoured.toInLimits
  | read =>
    obtain ⟨⟨q, proper, notDir⟩, small⟩ := reads
    exact settled.read_answered shows proper notDir small
  | getattr =>
    obtain ⟨q, proper⟩ := reads
    exact settled.toGood.getattr_answered shows settled.covered proper
  | «open» =>
    obtain ⟨q, proper⟩ := reads
    exact settled.toGood.open_answered shows proper
  | readdir =>
    obtain ⟨q, proper, notFile⟩ := reads
    exact settled.toGood.readdir_answered shows proper notFile

/-- What was asked in a run and what was answered. -/
inductive Told (start : State) : List Op → List (TreeRequest (List UInt8) UInt8) → List (TreeAnswer (List UInt8) UInt8) →
    State → Prop
  | nil : Told start [] [] [] start
  | next {ops : List Op} {requests : List (TreeRequest (List UInt8) UInt8)}
      {answers : List (TreeAnswer (List UInt8) UInt8)} {s : State} {op : Op} {request : TreeRequest (List UInt8) UInt8}
      {answer : TreeAnswer (List UInt8) UInt8} : Told start ops requests answers s → Asks op request →
    Replies s op answer → Told start (ops ++ [op]) (requests ++ [request]) (answers ++ [answer]) (step s op)

/-- A new file system shows the tree with the root only. -/
theorem shows_init (disk : Bytes) : Shows (sfsInit disk) .empty := by
  have initial := sfsInit_initial disk
  have good := initial.good
  have leaf : ∀ c, child (sfsInit disk).stores.pool 2 c = none := fun c => child_dnodeImage initial.root
  refine ⟨fun q => ?_, fun q k reach => ?_⟩
  · cases q with
    | nil => exact congrArg some (nodeOf_dir good.tree.top.dir).symm
    | cons c q =>
      rw [walk, leaf, Option.bind_none, Option.map_none]
      rfl
  · cases q with
    | nil =>
      obtain rfl := Option.some.inj reach
      refine Or.inr ?_
      rw [initial.root]
      exact (Bytes.take_apply_of_lt (by omega)).trans isdir_dnodeImage
    | cons c q =>
      rw [walk, leaf, Option.bind_none] at reach
      cases reach

/-- What the requests of a run ask, how they are answered, and the tree that they lead to. -/
structure Transcript (s₀ s : State) (ops : List Op) (requests : List (TreeRequest (List UInt8) UInt8))
    (answers : List (TreeAnswer (List UInt8) UInt8)) (t : FileTree (List UInt8) UInt8) : Prop where
  told : Told s₀ ops requests answers s
  serving : Serving requests answers t
  shows : Shows s t

theorem run_transcript {disk : Bytes} {ops : List Op} (run : Run step Honoured (sfsInit disk) ops s) :
    ∃ requests answers t, Transcript (sfsInit disk) s ops requests answers t := by
  induction run with
  | nil => exact ⟨[], [], .empty, .nil, .nil, shows_init disk⟩
  | @next ops s op before honoured ih =>
    obtain ⟨requests, answers, t, told, serving, shows⟩ := ih
    obtain ⟨L, fl, settled⟩ := run_settled (before.mono fun _ _ => Honoured.toInLimits)
    obtain ⟨request, answer, t', asks, serves, replies, shown⟩ := settled.answered shows honoured
    exact ⟨_, _, t', .next told asks replies, .next serving serves, shown⟩

/-- A run within the limits answers as a tree of files does. -/
theorem run_serves {disk : Bytes} {ops : List Op} (run : Run step Honoured (sfsInit disk) ops s) :
    ∃ requests answers t, Told (sfsInit disk) ops requests answers s ∧ Serving requests answers t ∧ Shows s t := by
  obtain ⟨requests, answers, t, told, serving, shows⟩ := run_transcript run
  exact ⟨requests, answers, t, told, serving, shows⟩

theorem honoured_create {name : List UInt8} (permit : Permit s (.create (render [name]) tail)) :
    Honoured s (.create (render [name]) tail) := ⟨⟨permit.vfs, trivial, permit.room⟩, trivial⟩

/-- A file is made. -/
theorem run_serves_first : ∃ requests answers t,
    Told (sfsInit Bytes.zero) [.create (render [[97]]) Bytes.zero] requests answers firstState ∧
      Serving requests answers t ∧ Shows firstState t :=
  run_serves (.next .nil (honoured_create ready_first.permit))

/-- Requests that ask the same of the tree. -/
def Alike (op op' : Op) : Prop := ∃ request, Asks op request ∧ Asks op' request

theorem render_inj_plain {q q' : Path} (plain : ∀ c ∈ q, Plain c) (plain' : ∀ c ∈ q', Plain c)
    (same : render q = render q') : q = q' :=
  render_inj (fun c member => (plain c member).component) (fun c member => (plain' c member).component) same

theorem Asks.unique {request request' : TreeRequest (List UInt8) UInt8} (first : Asks op request)
    (second : Asks op request') : request = request' := by
  obtain ⟨q, plain, path, rfl⟩ := first
  obtain ⟨q', plain', path', rfl⟩ := second
  rw [render_inj_plain plain plain' (path.symm.trans path')]

theorem Told.asks {requests : List (TreeRequest (List UInt8) UInt8)} {answers : List (TreeAnswer (List UInt8) UInt8)}
    {ops : List Op} (told : Told s ops requests answers s') : List.Forall₂ Asks ops requests := by
  induction told with
  | nil => exact .nil
  | next _ asks _ ih => exact List.rel_append ih (.cons asks .nil)

theorem asks_alike {ops ops' : List Op} {requests requests' : List (TreeRequest (List UInt8) UInt8)}
    (alike : List.Forall₂ Alike ops ops') (first : List.Forall₂ Asks ops requests)
    (second : List.Forall₂ Asks ops' requests') : requests = requests' := by
  induction alike generalizing requests requests' with
  | nil =>
    cases first
    cases second
    rfl
  | cons here _ ih =>
    obtain ⟨request, asks, asks'⟩ := here
    cases first with
    | cons first firsts =>
      cases second with
      | cons second seconds => rw [first.unique asks, second.unique asks', ih firsts seconds]

/-- What the disk held before does not show, nor does what is in memory behind
the names. -/
theorem run_alike {disk disk' : Bytes} {ops ops' : List Op} (run : Run step Honoured (sfsInit disk) ops s)
    (run' : Run step Honoured (sfsInit disk') ops' s') (alike : List.Forall₂ Alike ops ops') :
    ∃ requests answers t, Told (sfsInit disk) ops requests answers s ∧ Told (sfsInit disk') ops' requests answers s' ∧
      Shows s t ∧ Shows s' t := by
  obtain ⟨requests, answers, t, told, serving, shows⟩ := run_transcript run
  obtain ⟨requests', answers', t', told', serving', shows'⟩ := run_transcript run'
  obtain rfl := asks_alike alike told.asks told'.asks
  obtain ⟨rfl, rfl⟩ := serving.unique serving'
  exact ⟨requests, answers, t, told, told', shows, shows'⟩

/-- A file is made on two disks. -/
theorem run_alike_first : ∃ requests answers t,
    Told (sfsInit Bytes.zero) [.create (render [[97]]) Bytes.zero] requests answers firstState ∧
      Told (sfsInit fun _ => 255) [.create (render [[97]]) fun _ => 255] requests answers
        (step (sfsInit fun _ => 255) (.create (render [[97]]) fun _ => 255)) ∧
      Shows firstState t ∧ Shows (step (sfsInit fun _ => 255) (.create (render [[97]]) fun _ => 255)) t := by
  have plain : ∀ c ∈ [[(97 : UInt8)]], Plain c := fun c member => by
    rw [List.mem_singleton.mp member]
    exact plain_a
  have honoured : ∀ disk tail : Bytes, Honoured (sfsInit disk) (.create (render [[97]]) tail) := fun disk tail =>
    honoured_create (ready_create disk tail plain_a (by decide)).permit
  exact run_alike (.next .nil (honoured _ _)) (.next .nil (honoured _ _))
    (.cons ⟨_, ⟨[[97]], plain, rfl, rfl⟩, ⟨[[97]], plain, rfl, rfl⟩⟩ .nil)

end Sfs
