import Sfs.Ledger
import Sfs.LinkCount

namespace Sfs

/-- A file has one link, a directory as many as entries. -/
def LinksOk (x : Bytes) : Prop := isdir x = 0 ∧ nlink x = 1 ∨ isdir x = 1 ∧ nlink x = size x

/-- All nodes that a path leads to have the right number of links. -/
def Attributed (s : State) : Prop := ∀ pa k, walk (child s.stores.pool) 2 pa = some k → LinksOk (s.stores.pool.cell k)

variable {L L' : Set Nat} {s s' t : State} {fl fl' : List Nat} {j k m n q r : Nat} {x buf : Bytes} {c : List UInt8}
  {cs pa : Path} {path : CPath} {op : Op} {ops : List Op} {disk : Bytes}

theorem LinksOk.of_dir (ok : LinksOk x) (dir : isdir x ≠ 0) : isdir x = 1 ∧ nlink x = size x :=
  ok.resolve_left fun file => dir file.1

theorem LinksOk.of_file (ok : LinksOk x) (file : isdir x = 0) : nlink x = 1 := by
  rcases ok with one | dir
  · exact one.2
  · rw [file] at dir
    exact absurd dir.1 (by decide)

theorem nlink_fnodeImage : nlink (fnodeImage q m) = 1 := by
  rw [nlink, fnodeImage, setNlink, Bytes.get16_put16_self]

theorem linksOk_fnodeImage : LinksOk ((fnodeImage q m).take 128) :=
  Or.inl ⟨fnodeImage_fresh.2, (Bytes.get16_take (by omega)).trans nlink_fnodeImage⟩

theorem linksOk_dnodeImage : LinksOk ((dnodeImage q m).take 128) := by
  have links : nlink ((dnodeImage q m).take 128) = 2 := (Bytes.get16_take (by omega)).trans nlink_dnodeImage
  have rows : size ((dnodeImage q m).take 128) = 2 := (Bytes.get16_take (by omega)).trans size_dnodeImage
  exact Or.inr ⟨(Bytes.take_apply_of_lt (by omega)).trans isdir_dnodeImage, links.trans rows.symm⟩

theorem Glance.attributed (glance : Glance s s') (attributed : Attributed s) : Attributed s' := by
  rw [Attributed, glance.stores_eq]
  exact attributed

namespace Located

variable (located : Located L s path cs m c) (good : Good s L fl) (attributed : Attributed s)

include located good attributed

/-- The directory that gets an entry has one link more. -/
theorem attributed_made (made : Made L s s' q m x c) (fresh : Fresh x q) (absent : child s.stores.pool m c = none)
    (new : LinksOk x) (links : nlink (s'.stores.pool.cell m) = ushort ((nlink (s.stores.pool.cell m) : Int) + 1)) :
    Attributed s' := by
  intro pb j reach
  by_cases under : cs ++ [c] <+: pb
  · have leads := located.walk_new good made absent
    obtain ⟨rest, rfl⟩ := under
    cases rest with
    | nil =>
      rw [List.append_nil, leads] at reach
      obtain rfl := Option.some.inj reach
      rwa [made.node good located.live]
    | cons y rest =>
      rw [Walk.append, leads, Option.bind_some, walk, made.child_new good located.live fresh, Option.bind_none] at reach
      exact absurd reach.symm (Option.some_ne_none j)
  · rw [located.walk_made good made absent under] at reach
    have live := (good.tree.reach reach).1
    by_cases here : j = m
    · subst here
      obtain ⟨buf, repaged⟩ := made.repaged
      obtain ⟨dir, before⟩ := (attributed pb j reach).of_dir located.ok.dir
      have rows := good.tree.rows_le good.owned located.live located.ok
      refine Or.inr ⟨(made.isdir_eq good located.live live).trans dir, ?_⟩
      rw [links, before, repaged.resized.size, ushort_succ (by omega)]
    · rw [(made.same good located.live live here).cell_eq]
      exact attributed pb j reach

/-- The directory that loses an entry has one link less. -/
theorem attributed_removal (removal : Removal L L' s s' k m r fl') (leads : child s.stores.pool m c = some k)
    (within : r < size (s.stores.pool.cell m)) (hit : entName s.stores.pool m r = c)
    (links : nlink (s'.stores.pool.cell m) = ushort ((nlink (s.stores.pool.cell m) : Int) - 1)) : Attributed s' := by
  intro pb j reach
  have apart : ¬ cs ++ [c] <+: pb := fun under => by
    rw [walk_below_none (located.walk_gone good removal leads within hit) under] at reach
    exact Option.some_ne_none j reach.symm
  rw [located.walk_removal good removal leads within hit apart] at reach
  have live := (good.tree.reach reach).1
  have there : walk (child s.stores.pool) 2 (cs ++ [c]) = some k := located.walk_child.trans leads
  have notK : j ≠ k := by
    rintro rfl
    exact apart (good.tree.unique there reach ▸ List.prefix_refl _)
  by_cases here : j = m
  · subst here
    obtain ⟨dir, before⟩ := (attributed pb j reach).of_dir located.ok.dir
    have rows := good.tree.rows_le good.owned located.live located.ok
    have two := located.ok.two
    have fewer : size (s'.stores.pool.cell j) = size (s.stores.pool.cell j) - 1 := removal.dropped.1
    refine Or.inr ⟨removal.dir.trans dir, ?_⟩
    rw [links, before, fewer, ushort_pred (by omega) (by omega)]
  · rw [(removal.same j live notK here).cell_eq]
    exact attributed pb j reach

/-- A file keeps its link. -/
theorem attributed_changed (change : FileStep L s s' k n fl fl') (leads : child s.stores.pool m c = some k)
    (file : isdir (s.stores.pool.cell k) = 0) (links : nlink (s'.stores.pool.cell k) = nlink (s.stores.pool.cell k)) :
    Attributed s' := by
  intro pb j reach
  have live := (good.child_pos located.live leads).1
  rw [change.walk_eq good live file] at reach
  have live' := (good.tree.reach reach).1
  by_cases here : j = k
  · subst here
    exact Or.inl ⟨(change.isdir_eq good live live).trans file, links.trans ((attributed pb j reach).of_file file)⟩
  · obtain ⟨f, repaged⟩ := change.repaged
    rw [(repaged.same good.owned live live' here).cell_eq]
    exact attributed pb j reach

end Located

theorem Spilled.attributed (spilled : Spilled t s') (good : Good t L fl) (attributed : Attributed t) : Attributed s' := by
  intro pb j reach
  rw [spilled.walk_eq good] at reach
  rw [spilled.cell_eq]
  exact attributed pb j reach

namespace Good

variable (good : Good s L fl) (attributed : Attributed s)

include good attributed

theorem attributed_write {size offset : Nat} (permit : Permit s (.write path buf size offset)) :
    Attributed (step s (.write path buf size offset)) := by
  obtain ⟨cs, m, c, located, outcome⟩ := good.sfsWrite_spec permit
  have there : ∀ {k}, child s.stores.pool m c = some k → isdir (s.stores.pool.cell k) = 0 →
      Attributed (sfsWrite s path buf size offset).2 := by
    intro k leads file
    obtain ⟨live, lower, _⟩ := good.child_pos located.live leads
    have found : (pathToInum s path).1.inum = k := by rw [located.found good, leads, toInum]
    obtain ⟨fits, room⟩ := permit.write_fits found (by omega)
    obtain ⟨s₁, t, e, taken, fl', glance, stored, links, errno, final⟩ := sfsWrite_steps good located.live leads file found
      size offset fits room
    have change := stored.fileStep.of_glance glance
    have after : Attributed t := located.attributed_changed good attributed change leads file links
    rcases final with ⟨_, run⟩ | ⟨rfl, _, _, _, run⟩
    · rw [run]
      exact after
    · rw [run]
      obtain ⟨_, spilled⟩ := afterWrite_short (r := -ENOSPC) stored.list (by decide)
      exact spilled.attributed (change.good good live file errno) after
  change Attributed (sfsWrite s path buf size offset).2
  generalize sfsWrite s path buf size offset = o at outcome there
  obtain ⟨r, s'⟩ := o
  cases outcome with
  | absent _ glance => exact Glance.attributed glance attributed
  | written leads file => exact there leads file
  | short leads file => exact there leads file

theorem attributed_truncate {offset : Nat} (permit : Permit s (.truncate path offset)) :
    Attributed (step s (.truncate path offset)) := by
  obtain ⟨cs, m, c, located, outcome⟩ := good.sfsTruncate_spec permit
  have links : ∀ {k}, child s.stores.pool m c = some k → isdir (s.stores.pool.cell k) = 0 →
      nlink ((sfsTruncate s path offset).2.stores.pool.cell k) = nlink (s.stores.pool.cell k) := by
    intro k leads file
    obtain ⟨_, lower, _⟩ := good.child_pos located.live leads
    have found : (pathToInum s path).1.inum = k := by rw [located.found good, leads, toInum]
    obtain ⟨fits, room⟩ := permit.truncate_fits found (by omega)
    obtain ⟨_, _, _, _, _, _, links⟩ := sfsTruncate_steps good located.live leads file found offset fits room
    exact links
  change Attributed (sfsTruncate s path offset).2
  generalize sfsTruncate s path offset = o at outcome links
  obtain ⟨r, s'⟩ := o
  cases outcome with
  | absent _ glance => exact Glance.attributed glance attributed
  | shrunk leads file _ _ change => exact located.attributed_changed good attributed change leads file (links leads file)
  | grown leads file _ _ _ change => exact located.attributed_changed good attributed change leads file (links leads file)

/-- The links are right after every permitted request. -/
theorem attributed_step (permit : Permit s op) : Attributed (step s op) := by
  have vfs := permit.vfs
  have room := permit.room
  cases op with
  | create path tail =>
    obtain ⟨cs, c, proper, short⟩ := vfs
    obtain ⟨m, walks, live, ok, outcome⟩ := sfsCreate_spec good proper short room
    have located : Located L s path cs m c := ⟨proper.eq, proper.plain, walks, live, ok⟩
    cases leads : child s.stores.pool m c with
    | some k => exact (outcome.present leads).2.attributed attributed
    | none =>
      obtain ⟨q, _, _, _, made, links⟩ := sfsCreate_new good proper short room walks leads
      exact located.attributed_made good attributed made fnodeImage_fresh.1 leads linksOk_fnodeImage links
  | mkdir path tail =>
    obtain ⟨cs, c, proper, short⟩ := vfs
    obtain ⟨m, walks, live, ok, outcome⟩ := sfsMkdir_spec good proper short room
    have located : Located L s path cs m c := ⟨proper.eq, proper.plain, walks, live, ok⟩
    cases leads : child s.stores.pool m c with
    | some k => exact (outcome.present leads).2.attributed attributed
    | none =>
      obtain ⟨q, _, _, _, made, links⟩ := sfsMkdir_new good proper short room walks leads
      exact located.attributed_made good attributed made dnodeImage_fresh.1 leads linksOk_dnodeImage links
  | unlink path tail =>
    obtain ⟨cs, c, proper, notDir⟩ := vfs
    obtain ⟨m, walks, live, ok, outcome⟩ := sfsUnlink_spec good proper tail notDir
    have located : Located L s path cs m c := ⟨proper.eq, proper.plain, walks, live, ok⟩
    cases leads : child s.stores.pool m c with
    | none => exact (outcome.gone leads).2.attributed attributed
    | some k =>
      obtain ⟨_, _, ⟨r, hit, within, removal⟩, links, _⟩ := sfsUnlink_removed good proper tail notDir walks live ok leads
      exact located.attributed_removal good attributed removal leads within hit links
  | rmdir path tail =>
    obtain ⟨cs, c, proper, notFile⟩ := vfs
    obtain ⟨m, walks, live, ok, outcome⟩ := sfsRmdir_spec good proper tail notFile
    have located : Located L s path cs m c := ⟨proper.eq, proper.plain, walks, live, ok⟩
    cases leads : child s.stores.pool m c with
    | none => exact (outcome.gone leads).2.attributed attributed
    | some k =>
      obtain ⟨_, _, ⟨r, hit, within, removal⟩, links, _⟩ := sfsRmdir_removed good proper tail notFile walks live ok leads
      exact located.attributed_removal good attributed removal leads within hit links
  | write path buf size offset => exact good.attributed_write attributed permit
  | truncate path offset => exact good.attributed_truncate attributed permit
  | getattr path => exact Glance.attributed sfsGetattr_glance attributed
  | «open» path => exact Glance.attributed (pathToInum_glance s path) attributed
  | read path size offset => exact Glance.attributed sfsRead_glance attributed
  | readdir path => exact Glance.attributed sfsReaddir_glance attributed

end Good

theorem Initial.attributed (initial : Initial s) : Attributed s := by
  intro pa k reach
  obtain rfl : k = 2 := (initial.good.tree.reach reach).1
  rw [initial.root]
  exact linksOk_dnodeImage

/-- In every state of a run all nodes have the right number of links. -/
theorem run_attributed (run : Run step Permit (sfsInit disk) ops s) : (∃ N fl, Counted s N fl) ∧ Attributed s := by
  have initial := sfsInit_initial disk
  refine run.invariant (I := fun s => (∃ N fl, Counted s N fl) ∧ Attributed s)
    ⟨⟨_, _, initial.counted⟩, initial.attributed⟩ fun s op invariant permit => ?_
  obtain ⟨⟨N, fl, counted⟩, attributed⟩ := invariant
  exact ⟨(ledger_step ⟨N, fl, counted⟩ permit).1, counted.good.attributed_step attributed permit⟩

/-- What is listed of a directory is what paths lead to. -/
theorem Counted.leads_below {N : Finset Nat} (counted : Counted s N fl) (leads : Leads s pa k) :
    child s.stores.pool k c ≠ none ↔ ∃ j, Leads s (pa ++ [c]) j := by
  have good := counted.good
  have reach := good.tree.reached good.owned leads
  constructor
  · intro there
    obtain ⟨j, step⟩ := Option.ne_none_iff_exists'.mp there
    have reach' : walk (child s.stores.pool) 2 (pa ++ [c]) = some j := Walk.concat_some.mpr ⟨k, reach, step⟩
    obtain ⟨q, plain, walks⟩ := counted.reachable j (good.tree.reach reach').1 (Or.inr trivial)
    obtain rfl := good.tree.unique walks reach'
    exact ⟨j, (good.tree.leads_iff good.owned plain).mpr reach'⟩
  · rintro ⟨j, leads'⟩
    obtain ⟨m, walks, step⟩ := Walk.concat_some.mp (good.tree.reached good.owned leads')
    obtain rfl := Option.some.inj (walks.symm.trans reach)
    rw [step]
    exact Option.some_ne_none j

/-- A file has one link, and its blocks are those listed for it. A directory
has as many links as names are listed for it, which is its size, and these are
the names under which paths lead on, each listed once. -/
theorem run_attributes (run : Run step Permit (sfsInit disk) ops s) (leads : Leads s pa k) :
    isdir (inodeLoad s k) = 0 ∧
        (sfsGetattr s (render pa)).1 = (0, 0o100644, 1, (listedFile s k).length, fsize (inodeLoad s k)) ∨
      isdir (inodeLoad s k) = 1 ∧ ∃ names, (sfsReaddir s (render pa)).1 = (0, [46] :: [46, 46] :: names) ∧ names.Nodup ∧
        (∀ x, x ∈ names ↔ ∃ j, Leads s (pa ++ [x]) j) ∧
        (sfsGetattr s (render pa)).1 = (0, 0o40755, names.length + 2, 0, names.length + 2) := by
  obtain ⟨⟨N, fl, counted⟩, attributed⟩ := run_attributed run
  have good := counted.good
  have reach := good.tree.reached good.owned leads
  have proper : Proper s (render pa) pa := ⟨rfl, leads.plain, leads.parents⟩
  obtain ⟨live, isOk⟩ := good.tree.reach reach
  have loaded : inodeLoad s k = s.stores.pool.cell k := good.owned.inodeLoad_eq live
  have shown := good.tree.sfsGetattr_there good.owned proper reach
  rw [loaded]
  rcases attributed pa k reach with ⟨file, links⟩ | ⟨dir, links⟩
  · refine Or.inl ⟨file, ?_⟩
    rw [shown, if_neg (by rw [file]; decide), links, good.listed_length live file]
  · have dir' : isdir (s.stores.pool.cell k) ≠ 0 := by
      rw [dir]
      decide
    obtain ⟨names, split, nodup, member⟩ := (isOk dir').names_rows
    have length : size (s.stores.pool.cell k) = names.length + 2 := by
      have lengths := congrArg List.length split
      rwa [List.length_map, List.length_range, List.length_cons, List.length_cons] at lengths
    refine Or.inr ⟨dir, names, ?_, nodup, fun x => ?_, ?_⟩
    · rw [good.tree.sfsReaddir_there good.owned proper reach dir', split]
    · rw [member, counted.leads_below leads]
    · rw [shown, if_pos dir, links, length]

/-- The file `/a` in the state after it has been created. -/
theorem run_attributes_first : ∃ k, isdir (inodeLoad firstState (k : Nat)) = 0 ∧
        (sfsGetattr firstState (render [[97]])).1 =
          (0, 0o100644, 1, (listedFile firstState k).length, fsize (inodeLoad firstState (k : Nat))) ∨
      isdir (inodeLoad firstState (k : Nat)) = 1 ∧ ∃ names,
        (sfsReaddir firstState (render [[97]])).1 = (0, [46] :: [46, 46] :: names) ∧ names.Nodup ∧
        (∀ x, x ∈ names ↔ ∃ j, Leads firstState ([[97]] ++ [x]) j) ∧
        (sfsGetattr firstState (render [[97]])).1 = (0, 0o40755, names.length + 2, 0, names.length + 2) := by
  obtain ⟨k, first⟩ := firstState_firstFile
  exact ⟨k, run_attributes (.next .nil ready_first.permit) first.node.reached⟩

end Sfs
