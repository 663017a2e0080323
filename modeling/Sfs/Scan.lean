import Sfs.Fuse
import Sfs.Namei

namespace Sfs

/-- A component of a path. -/
structure Component (c : List UInt8) : Prop where
  nonempty : c ≠ []
  noNul : 0 ∉ c
  noSlash : slash ∉ c

/-- The path with components `q`, perhaps with a slash behind the last. -/
inductive Spelled (q : Path) : CPath → Prop
  | plain : Spelled q (render q)
  | trailing : q ≠ [] → Spelled q (render q ++ [slash])

/-- The names before a slash, and the characters behind the last slash. -/
def tokens (head : List UInt8) : List UInt8 → Path × List UInt8
  | [] => ([], head)
  | x :: tail =>
    if x = slash then (head :: (tokens [] tail).1, (tokens [] tail).2)
    else tokens (head ++ [x]) tail

/-- The part of the path that `path_to_inum` scans. -/
def scanned (path : CPath) : List UInt8 :=
  (if path.getLast? = some slash then path.dropLast else path).drop 1

/-- The names that `path_to_inum` looks up, in order. -/
def lookups (path : CPath) : Path :=
  (tokens [] (scanned path)).1 ++ if (tokens [] (scanned path)).2 ≠ [] then [(tokens [] (scanned path)).2] else []

/-- One lookup after the other, from inode `k`. -/
def lookupAll (s : State) (k : Int) : Path → Int × State
  | [] => (k, s)
  | c :: q => lookupAll (pathToInumElem s c (ushort k)).2 (pathToInumElem s c (ushort k)).1 q

variable {s t : State} {k : Int} {above : Int × State} {q cs : Path} {c head tail : List UInt8} {path : CPath}

theorem lookupAll_append : lookupAll s k (cs ++ q) = lookupAll (lookupAll s k cs).2 (lookupAll s k cs).1 q := by
  induction cs generalizing s k with
  | nil => rfl
  | cons c cs ih => exact ih

/-- The tokenizer looks up the names before a slash. -/
theorem pathWalk_tokens : pathWalk s ⟨k, head⟩ tail =
    (⟨(lookupAll s k (tokens head tail).1).1, (tokens head tail).2⟩, (lookupAll s k (tokens head tail).1).2) := by
  induction tail generalizing s k head with
  | nil => rfl
  | cons x tail ih =>
    rw [pathWalk, tokens]
    split
    · rw [ih]
      rfl
    · exact ih

theorem pathToInum_tokens (atBody : scanned path = tail) (atStart : s.fault (path.length ≥ PATH_MAX) = t)
    (atAbove : lookupAll t 2 (tokens [] tail).1 = above) : pathToInum s path =
      if (tokens [] tail).2 ≠ [] then
        (⟨(pathToInumElem above.2 (tokens [] tail).2 (ushort above.1)).1, above.1⟩,
          (pathToInumElem above.2 (tokens [] tail).2 (ushort above.1)).2)
      else (⟨above.1, above.1⟩, above.2) := by
  subst atBody atStart atAbove
  have walked : pathWalk (s.fault (path.length ≥ PATH_MAX)) ⟨2, []⟩ (scanned path) = _ := pathWalk_tokens
  rw [scanned] at walked ⊢
  simp only [pathToInum, walked]

/-- What `path_to_inum` finds is the result of its lookups. -/
theorem pathToInum_lookups : ((pathToInum s path).1.inum, (pathToInum s path).2) =
    lookupAll (s.fault (path.length ≥ PATH_MAX)) 2 (lookups path) := by
  rw [pathToInum_tokens rfl rfl rfl, lookups]
  generalize scanned path = tail
  split
  · rw [lookupAll_append]
    rfl
  · rw [List.append_nil]

/-- Its `parent` is the result of the lookups before the last. -/
theorem pathToInum_parent : (pathToInum s path).1.parent =
    (lookupAll (s.fault (path.length ≥ PATH_MAX)) 2 (tokens [] (scanned path)).1).1 := by
  rw [pathToInum_tokens rfl rfl rfl]
  split <;> rfl

theorem tokens_chars (clean : slash ∉ c) : tokens head (c ++ tail) = tokens (head ++ c) tail := by
  induction c generalizing head with
  | nil => rw [List.nil_append, List.append_nil]
  | cons x c ih =>
    rw [List.mem_cons, not_or] at clean
    rw [List.cons_append, tokens, if_neg (Ne.symm clean.1), ih clean.2, List.append_assoc, List.singleton_append]

theorem tokens_joinSlash (named : ∀ x ∈ cs, Component x) (clean : slash ∉ c) :
    tokens [] (joinSlash (cs ++ [c])) = (cs, c) := by
  induction cs with
  | nil =>
    have chars : tokens [] (c ++ []) = _ := tokens_chars clean
    rw [List.append_nil, List.nil_append] at chars
    exact chars
  | cons x cs ih =>
    have here := named x (List.mem_cons_self ..)
    rw [List.cons_append, joinSlash_cons x (by simp), tokens_chars here.noSlash, tokens, if_pos rfl,
      ih fun y member => named y (List.mem_cons_of_mem _ member)]
    rfl

theorem last_of_concat (last : slash ∉ c) (nonempty : c ≠ []) : (render (cs ++ [c])).getLast? ≠ some slash := by
  obtain ⟨pre, split⟩ := render_concat cs c
  rw [split, ← List.singleton_append, ← List.append_assoc, List.getLast?_append_of_ne_nil _ nonempty]
  exact fun same => last (List.mem_of_mem_getLast? same)

namespace Spelled

variable (spelled : Spelled q path) (named : ∀ x ∈ q, Component x)

include spelled named

/-- A slash at the end is not scanned. -/
theorem scanned_eq : scanned path = joinSlash q := by
  cases spelled with
  | plain =>
    rcases List.eq_nil_or_concat q with rfl | ⟨cs, c, rfl⟩
    · rfl
    · rw [List.concat_eq_append] at named ⊢
      have last := named c (by simp)
      rw [scanned, if_neg (last_of_concat last.noSlash last.nonempty)]
      rfl
  | trailing _ =>
    rw [scanned, if_pos (by simp), List.dropLast_concat]
    rfl

theorem tokens_eq : tokens [] (scanned path) = (q.dropLast, q.getLast?.getD []) := by
  rw [spelled.scanned_eq named]
  rcases List.eq_nil_or_concat q with rfl | ⟨cs, c, rfl⟩
  · rfl
  · rw [List.concat_eq_append] at named ⊢
    rw [tokens_joinSlash (fun x member => named x (List.mem_append_left _ member)) (named c (by simp)).noSlash]
    simp

/-- The components are looked up one by one. -/
theorem lookups_eq : lookups path = q := by
  rw [lookups, spelled.tokens_eq named]
  rcases List.eq_nil_or_concat q with rfl | ⟨cs, c, rfl⟩
  · rfl
  · rw [List.concat_eq_append] at named ⊢
    have last := named c (by simp)
    simp [last.nonempty]

end Spelled

theorem Plain.component (plain : Plain c) : Component c := ⟨plain.nonempty, plain.noNul, plain.noSlash⟩

/-- A path has one list of components. -/
theorem render_inj (named : ∀ x ∈ q, Component x) (named' : ∀ x ∈ cs, Component x) (same : render q = render cs) :
    q = cs := by
  have first := Spelled.plain.lookups_eq named
  have second := Spelled.plain.lookups_eq named'
  rw [← first, ← second, same]

/-- The name that is looked up last is the one that the directory is updated
with, and it fits the buffers of `sfs_mkdir` and `sfs_rmdir`. -/
structure LastAgrees (path : CPath) : Prop where
  same : (lookups path).getLast?.getD [] = basename path
  fits : ∀ s, (pathBasename s path).ub = s.ub

theorem basename_trailing : basename (path ++ [slash]) = [] := by
  rw [basename, List.reverse_append]
  simp

theorem basename_root : basename (render []) = [] := by decide

/-- A name fits the buffer when it has at most 13 bytes. -/
theorem pathBasename_fits : (∀ s, (pathBasename s path).ub = s.ub) ↔ (basename path).length ≤ 13 := by
  constructor
  · intro fits
    have initial := fits (boot Bytes.zero)
    by_contra long
    have exceeds : 14 ≤ (basename path).length := by omega
    simp [pathBasename, State.fault, boot, exceeds] at initial
  · intro short s
    have within : ¬ (basename path).length ≥ 14 := by omega
    simp [pathBasename, State.fault, within]

/-- All scanners of a path find the same last name exactly when no slash
follows it, and it fits the buffers when it has at most 13 bytes. -/
theorem last_agrees (spelled : Spelled q path) (named : ∀ x ∈ q, Component x) :
    LastAgrees path ↔ path = render q ∧ (q.getLast?.getD []).length ≤ 13 := by
  have looked := spelled.lookups_eq named
  rcases List.eq_nil_or_concat q with rfl | ⟨cs, c, rfl⟩
  · cases spelled with
    | plain =>
      refine iff_of_true ⟨by rw [looked, basename_root]; rfl, ?_⟩ ⟨rfl, by simp⟩
      rw [pathBasename_fits, basename_root]
      decide
    | trailing more => exact absurd rfl more
  · rw [List.concat_eq_append] at spelled named looked ⊢
    have last := named c (by simp)
    cases spelled with
    | plain =>
      have name := basename_render (q := cs) last.noSlash
      constructor
      · intro agrees
        have short := pathBasename_fits.mp agrees.fits
        rw [name] at short
        exact ⟨rfl, by simpa using short⟩
      · rintro ⟨-, short⟩
        refine ⟨by rw [looked, name]; simp, pathBasename_fits.mpr ?_⟩
        rw [name]
        simpa using short
    | trailing _ =>
      constructor
      · intro agrees
        have same := agrees.same
        rw [looked, basename_trailing] at same
        exact absurd (by simpa using same) last.nonempty
      · rintro ⟨same, -⟩
        have length := congrArg List.length same
        rw [List.length_append, List.length_singleton] at length
        omega

theorem component_a : ∀ x ∈ [[97]], Component x := by
  intro x member
  rw [List.mem_singleton.mp member]
  exact ⟨by decide, by decide, by decide⟩

theorem last_agrees_a : LastAgrees (render [[97]]) :=
  (last_agrees .plain component_a).mpr ⟨rfl, by decide⟩

/-- The slash of `/a/` hides the name from `strrchr`, and a name of 14 bytes
does not fit. -/
theorem last_disagrees : ¬ LastAgrees (render [[97]] ++ [slash]) ∧ ¬ LastAgrees (render [List.replicate 14 97]) := by
  constructor
  · intro agrees
    exact absurd agrees.same (by decide)
  · intro agrees
    exact absurd (pathBasename_fits.mp agrees.fits) (by decide)

end Sfs
