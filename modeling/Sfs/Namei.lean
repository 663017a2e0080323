import Sfs.Tree

namespace Sfs

/-- What `path_to_inum` finds for a path. -/
def namei (s : State) (q : Path) : Int := (pathToInum s (render q)).1.inum

def DirAt (s : State) (q : Path) : Prop := 0 < namei s q ∧ isdir (inodeLoad s (namei s q)) ≠ 0

def FileAt (s : State) (q : Path) : Prop := 0 < namei s q ∧ isdir (inodeLoad s (namei s q)) = 0

/-- All proper prefixes of the path are directories. -/
def Parents (s : State) (q : Path) : Prop := ∀ pre x rest, q = pre ++ x :: rest → DirAt s pre

variable {L : Set Nat} {s s' : State} {p : Pool Bytes} {k m : Nat} {c head : List UInt8} {tail : List UInt8}
  {cs q : Path}

theorem joinSlash_cons (x : List UInt8) (more : q ≠ []) : joinSlash (x :: q) = x ++ slash :: joinSlash q := by
  cases q with
  | nil => exact absurd rfl more
  | cons y q => rfl

/-- The last component comes after a slash. -/
theorem render_concat (q : Path) (c : List UInt8) : ∃ pre, render (q ++ [c]) = pre ++ slash :: c := by
  induction q with
  | nil => exact ⟨[], rfl⟩
  | cons x q ih =>
    obtain ⟨pre, split⟩ := ih
    refine ⟨slash :: x ++ pre, ?_⟩
    rw [List.cons_append, render, joinSlash_cons x (by simp), List.append_assoc, ← split, render]
    rfl

theorem basename_render (clean : slash ∉ c) : basename (render (q ++ [c])) = c := by
  obtain ⟨pre, split⟩ := render_concat q c
  have all : ∀ x ∈ c.reverse, decide (x ≠ slash) = true := fun x member => by
    simp only [ne_eq, decide_not, Bool.not_eq_true', decide_eq_false_iff_not]
    rintro rfl
    exact clean (List.mem_reverse.mp member)
  rw [basename, split, List.reverse_append, List.reverse_cons, List.append_assoc,
    List.takeWhile_append_of_pos all]
  simp

/-- A rendered path does not end with a slash, so that its copy is scanned as it is. -/
theorem dup_render (plain : Plain c) : (if (render (q ++ [c])).getLast? = some slash
    then (render (q ++ [c])).dropLast else render (q ++ [c])).drop 1 = joinSlash (q ++ [c]) := by
  obtain ⟨pre, split⟩ := render_concat q c
  have last : (render (q ++ [c])).getLast? ≠ some slash := by
    rw [split, ← List.singleton_append, ← List.append_assoc, List.getLast?_append_of_ne_nil _ plain.nonempty]
    exact fun same => plain.noSlash (List.mem_of_mem_getLast? same)
  rw [if_neg last]
  rfl

theorem pathWalk_chars {inum : Int} (clean : slash ∉ c) :
    pathWalk s ⟨inum, head⟩ (c ++ tail) = pathWalk s ⟨inum, head ++ c⟩ tail := by
  induction c generalizing head with
  | nil => rw [List.nil_append, List.append_nil]
  | cons x c ih =>
    rw [List.mem_cons, not_or] at clean
    rw [List.cons_append, pathWalk, if_neg (Ne.symm clean.1), ih clean.2, List.append_assoc]
    rfl

/-- The tokenizer follows the entries of the tree up to the last component. -/
theorem pathWalk_join (owned : Owned L s.stores.pool) (tree : Tree L s.stores.pool) (live : k ∈ L)
    (good : isdir (s.stores.pool.cell k) ≠ 0 → DirOk s.stores.pool k) (plain : ∀ x ∈ cs, Plain x)
    (clean : slash ∉ c) (walks : walk (child s.stores.pool) k cs = some m) :
    ∃ s', pathWalk s ⟨k, []⟩ (joinSlash (cs ++ [c])) = (⟨m, c⟩, s') ∧ Glance s s' ∧ s'.ub = s.ub := by
  induction cs generalizing s k with
  | nil =>
    obtain rfl := Option.some.inj walks
    have chars : pathWalk s ⟨k, []⟩ (c ++ []) = pathWalk s ⟨k, [] ++ c⟩ [] := pathWalk_chars clean
    rw [List.append_nil, List.nil_append] at chars
    exact ⟨s, chars, .refl s, rfl⟩
  | cons x cs ih =>
    obtain ⟨k', step, rest⟩ := Option.bind_eq_some_iff.mp walks
    have atX := plain x (List.mem_cons_self ..)
    obtain ⟨dir, _, _, found⟩ := child_some step
    obtain ⟨live', _, good'⟩ := tree.closed k live x k' step
    obtain ⟨s₁, elem, glance, ub⟩ := pathToInumElem_spec owned live (good dir) atX.noNul atX.notDot
    have short : ushort k = k := ushort_nat (by have := owned.node_range live; omega)
    have same := glance.stores_eq
    obtain ⟨s', run, glance', ub'⟩ := ih (s := s₁) (k := k') (by rwa [same]) (by rwa [same]) live' (by rwa [same])
      (fun y member => plain y (List.mem_cons_of_mem _ member)) (by rwa [same])
    refine ⟨s', ?_, glance.trans glance', ub'.trans ub⟩
    rw [List.cons_append, joinSlash_cons x (by simp), pathWalk_chars atX.noSlash, pathWalk, if_pos rfl,
      List.nil_append, short, elem, found]
    exact run

/-- Looking up a path whose last directory is `m`. -/
theorem pathToInum_spec (cs : Path) (owned : Owned L s.stores.pool) (tree : Tree L s.stores.pool)
    (plain : ∀ x ∈ cs, Plain x) (last : Plain c) (walks : walk (child s.stores.pool) 2 cs = some m)
    (dir : isdir (s.stores.pool.cell m) ≠ 0) :
    ∃ s', pathToInum s (render (cs ++ [c])) = (⟨toInum (child s.stores.pool m c), m⟩, s') ∧ Glance s s' ∧
      ((render (cs ++ [c])).length < PATH_MAX → s'.ub = s.ub) := by
  obtain ⟨live, good⟩ := tree.reach walks
  have ok := good dir
  have glance₀ := Glance.of_fault (s := s) (decide ((render (cs ++ [c])).length ≥ PATH_MAX))
  have same₀ := glance₀.stores_eq
  have ub₀ (short : (render (cs ++ [c])).length < PATH_MAX) :
      (s.fault (decide ((render (cs ++ [c])).length ≥ PATH_MAX))).ub = s.ub := by
    rw [decide_eq_false (Nat.not_le.mpr short), fault_false]
  generalize startIs : s.fault (decide ((render (cs ++ [c])).length ≥ PATH_MAX)) = s₀ at *
  obtain ⟨s₁, run, glance₁, ub₁⟩ := pathWalk_join (s := s₀) (k := 2) (c := c) (by rwa [same₀]) (by rwa [same₀])
    tree.root (fun _ => by rw [same₀]; exact tree.top) plain last.noSlash (by rwa [same₀])
  have same₁ := glance₁.stores_eq.trans same₀
  obtain ⟨s', elem, glance', ub'⟩ := pathToInumElem_spec (s := s₁) (by rwa [same₁]) live (by rwa [same₁]) last.noNul
    last.notDot
  have short : ushort m = m := ushort_nat (by have := owned.node_range live; omega)
  refine ⟨s', ?_, glance₀.trans (glance₁.trans glance'), fun short => ub'.trans (ub₁.trans (ub₀ short))⟩
  rw [child_dir dir last.notDot last.notDotdot, ← same₁]
  have walked : pathWalk s₀ ⟨2, []⟩ (joinSlash (cs ++ [c])) = (⟨m, c⟩, s₁) := run
  simp only [pathToInum, startIs, dup_render last, walked, last.nonempty, ne_eq, not_false_eq_true, if_true, short,
    elem]

theorem namei_root : namei s [] = 2 := by
  simp [namei, pathToInum, render, joinSlash, pathWalk]

/-- Below directories a path is found where the entries lead. -/
theorem namei_eq (owned : Owned L s.stores.pool) (tree : Tree L s.stores.pool) (plain : ∀ x ∈ q, Plain x)
    (parents : Parents s q) : namei s q = toInum (walk (child s.stores.pool) 2 q) := by
  induction q using List.reverseRecOn with
  | nil => exact namei_root
  | append_singleton cs c ih =>
    have above := ih (fun x member => plain x (List.mem_append_left _ member)) fun pre x rest split =>
      parents pre x (rest ++ [c]) (by rw [split]; simp)
    obtain ⟨positive, dir⟩ := parents cs c [] rfl
    rw [above] at positive dir
    cases walks : walk (child s.stores.pool) 2 cs with
    | none =>
      rw [walks, toInum] at positive
      omega
    | some m =>
      obtain ⟨live, _⟩ := tree.reach walks
      rw [walks, toInum, owned.inodeLoad_eq live] at dir
      obtain ⟨s', run, _⟩ := pathToInum_spec cs owned tree (fun x member => plain x (List.mem_append_left _ member))
        (plain c (by simp)) walks dir
      rw [namei, run, Walk.concat, walks]
      rfl

end Sfs
