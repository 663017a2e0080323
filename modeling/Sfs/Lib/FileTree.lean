import Mathlib.Data.List.Induction
import Mathlib.Data.Set.Basic
import Sfs.Lib.Splice

open Splice

/-- A directory, or a file with its content. -/
inductive TreeNode (β : Type)
  | dir
  | file (content : List β)

/-- What stands under the paths. Only directories have something below them. -/
@[ext]
structure FileTree (ν β : Type) where
  node : List ν → Option (TreeNode β)
  root : node [] = some .dir
  above : ∀ q x, node (q ++ [x]) ≠ none → node q = some .dir

namespace FileTree

variable {ν β : Type} [DecidableEq ν] {t t' : FileTree ν β} {p pa q : List ν} {x : ν} {n : TreeNode β} {old new : List β}

def empty : FileTree ν β where
  node p := if p = [] then some .dir else none
  root := if_pos rfl
  above q x there := absurd (if_neg (by simp)) there

/-- A new node in directory `q`. -/
def put (t : FileTree ν β) (q : List ν) (x : ν) (n : TreeNode β) (dir : t.node q = some .dir)
    (free : t.node (q ++ [x]) = none) : FileTree ν β where
  node pa := if pa = q ++ [x] then some n else t.node pa
  root := (if_neg (by simp)).trans t.root
  above pa y there := by
    have other : ∀ pb, t.node pb = some .dir → pb ≠ q ++ [x] := by
      rintro pb isDir rfl
      exact Option.some_ne_none _ (isDir.symm.trans free)
    have isDir : t.node pa = some .dir := by
      by_cases here : pa ++ [y] = q ++ [x]
      · obtain ⟨rfl, -⟩ := List.append_inj' here rfl
        exact dir
      · rw [if_neg here] at there
        exact t.above pa y there
    rw [if_neg (other pa isDir), isDir]

/-- A file with another content. -/
def rewrite (t : FileTree ν β) (p : List ν) (new : List β) (file : t.node p = some (.file old)) : FileTree ν β where
  node pa := if pa = p then some (.file new) else t.node pa
  root := by
    rw [if_neg]
    · exact t.root
    · rintro rfl
      cases t.root.symm.trans file
  above pa y there := by
    have isDir : t.node pa = some .dir := by
      refine t.above pa y ?_
      by_cases here : pa ++ [y] = p
      · rw [here, file]
        exact Option.some_ne_none _
      · rwa [if_neg here] at there
    rw [if_neg]
    · exact isDir
    · rintro rfl
      cases isDir.symm.trans file

/-- The tree without what stands at `p` and below. -/
def remove (t : FileTree ν β) (p : List ν) (below : p ≠ []) : FileTree ν β where
  node pa := if p <+: pa then none else t.node pa
  root := by
    rw [if_neg]
    · exact t.root
    · exact fun under => below (List.prefix_nil.mp under)
  above pa y there := by
    by_cases under : p <+: pa ++ [y]
    · exact absurd (if_pos under) there
    · rw [if_neg under] at there
      rw [if_neg fun inside => under (inside.trans (List.prefix_append pa [y]))]
      exact t.above pa y there

variable {dir : t.node q = some .dir} {free : t.node (q ++ [x]) = none} {file : t.node p = some (.file old)} {below : p ≠ []}

theorem put_self : (t.put q x n dir free).node (q ++ [x]) = some n := if_pos rfl

theorem put_other (ne : pa ≠ q ++ [x]) : (t.put q x n dir free).node pa = t.node pa := if_neg ne

theorem rewrite_self : (t.rewrite p new file).node p = some (.file new) := if_pos rfl

theorem rewrite_other (ne : pa ≠ p) : (t.rewrite p new file).node pa = t.node pa := if_neg ne

theorem remove_below (under : p <+: pa) : (t.remove p below).node pa = none := if_pos under

theorem remove_other (apart : ¬ p <+: pa) : (t.remove p below).node pa = t.node pa := if_neg apart

omit [DecidableEq ν] in
/-- Nothing stands below what is not there. -/
theorem absent_below (absent : t.node p = none) (below : p <+: pa) : t.node pa = none := by
  obtain ⟨rest, rfl⟩ := below
  induction rest using List.reverseRecOn with
  | nil => rwa [List.append_nil]
  | append_singleton rest y ih =>
    by_contra there
    rw [← List.append_assoc] at there
    exact Option.some_ne_none _ ((t.above _ _ there).symm.trans ih)

end FileTree

/-- What is asked of a tree of files. -/
inductive TreeRequest (ν β : Type)
  | make (p : List ν) (n : TreeNode β)
  | drop (p : List ν)
  | write (p : List ν) (offset : Nat) (bytes : List β)
  | cut (p : List ν) (length : Nat)
  | read (p : List ν) (offset length : Nat)
  | stat (p : List ν)
  | list (p : List ν)

inductive TreeAnswer (ν β : Type)
  | done
  | present
  | absent
  | wrote (count : Nat)
  | bytes (x : List β)
  | node (n : TreeNode β)
  | names (xs : Set ν)

namespace TreeRequest

variable {ν β : Type}

def path : TreeRequest ν β → List ν
  | make p _ | drop p | write p _ _ | cut p _ | read p _ _ | stat p | list p => p

def IsMake : TreeRequest ν β → Prop
  | make _ _ => True
  | _ => False

end TreeRequest

namespace FileTree

variable {ν β : Type} [DecidableEq ν] {t t₁ t' t'' : FileTree ν β} {p pa : List ν} {request : TreeRequest ν β}
  {answer answer' : TreeAnswer ν β}

/-- The answer to a request, and the tree after it. -/
inductive Serves (t : FileTree ν β) : TreeRequest ν β → TreeAnswer ν β → FileTree ν β → Prop
  | present {p : List ν} {n : TreeNode β} : t.node p ≠ none → Serves t (.make p n) .present t
  | made {q : List ν} {x : ν} {n : TreeNode β} (dir : t.node q = some .dir) (free : t.node (q ++ [x]) = none) :
    Serves t (.make (q ++ [x]) n) .done (t.put q x n dir free)
  | absent {request : TreeRequest ν β} : t.node request.path = none → ¬ request.IsMake → Serves t request .absent t
  | dropped {p : List ν} (below : p ≠ []) : t.node p ≠ none → Serves t (.drop p) .done (t.remove p below)
  | written {p : List ν} {offset : Nat} {bytes old : List β} (file : t.node p = some (.file old)) : offset ≤ old.length →
    Serves t (.write p offset bytes) (.wrote bytes.length) (t.rewrite p (splice old bytes offset) file)
  | cut {p : List ν} {length : Nat} {old : List β} (file : t.node p = some (.file old)) : length < old.length →
    Serves t (.cut p length) .done (t.rewrite p (old.take length) file)
  | read {p : List ν} {offset length : Nat} {old : List β} : t.node p = some (.file old) →
    Serves t (.read p offset length) (.bytes ((old.drop offset).take length)) t
  | stat {p : List ν} {n : TreeNode β} : t.node p = some n → Serves t (.stat p) (.node n) t
  | list {p : List ν} : t.node p = some .dir → Serves t (.list p) (.names {x | t.node (p ++ [x]) ≠ none}) t

/-- A run of requests with the answers to them. -/
inductive Serving : List (TreeRequest ν β) → List (TreeAnswer ν β) → FileTree ν β → Prop
  | nil : Serving [] [] .empty
  | next {requests : List (TreeRequest ν β)} {answers : List (TreeAnswer ν β)} {t t' : FileTree ν β}
      {request : TreeRequest ν β} {answer : TreeAnswer ν β} : Serving requests answers t → Serves t request answer t' →
    Serving (requests ++ [request]) (answers ++ [answer]) t'

/-- What is not below the path of a request stays. -/
theorem Serves.outside (serves : Serves t request answer t') (apart : ¬ request.path <+: pa) : t'.node pa = t.node pa := by
  cases serves with
  | made => exact put_other fun same => apart (same ▸ List.prefix_refl _)
  | dropped => exact remove_other apart
  | written => exact rewrite_other fun same => apart (same ▸ List.prefix_refl _)
  | cut => exact rewrite_other fun same => apart (same ▸ List.prefix_refl _)
  | present | absent | read | stat | list => rfl

/-- The answer, and what is below the path afterwards, depend on what was
below the path only. -/
theorem Serves.below (first : Serves t request answer t') (second : Serves t₁ request answer' t'')
    (same : ∀ pa, request.path <+: pa → t₁.node pa = t.node pa) :
    answer' = answer ∧ ∀ pa, request.path <+: pa → t''.node pa = t'.node pa := by
  have here : t₁.node request.path = t.node request.path := same _ (List.prefix_refl _)
  cases first with
  | present there =>
    cases second with
    | present => exact ⟨rfl, same⟩
    | made _ free => exact absurd (here.symm.trans free) there
    | absent _ other => exact absurd trivial other
  | @made q x n dir free =>
    generalize pathIs : q ++ [x] = p at second
    cases second with
    | present there => exact absurd (here.trans free) (pathIs ▸ there)
    | absent _ other => exact absurd trivial other
    | @made q' x' _ dir' free' =>
      obtain ⟨rfl, equal⟩ := List.append_inj' pathIs rfl
      obtain rfl := List.singleton_inj.mp equal
      refine ⟨rfl, fun pa under => ?_⟩
      by_cases at' : pa = q ++ [x]
      · rw [at', put_self, put_self]
      · rw [put_other at', put_other at', same pa under]
  | absent none other =>
    rw [none] at here
    cases second with
    | present => exact absurd trivial other
    | made => exact absurd trivial other
    | absent => exact ⟨rfl, same⟩
    | dropped _ there => exact absurd here there
    | written file => cases here.symm.trans file
    | cut file => cases here.symm.trans file
    | read file => cases here.symm.trans file
    | stat there => cases here.symm.trans there
    | list dir => cases here.symm.trans dir
  | dropped _ there =>
    cases second with
    | absent none => exact absurd (here.symm.trans none) there
    | dropped => exact ⟨rfl, fun pa under => (remove_below under).trans (remove_below under).symm⟩
  | @written p offset bytes old file =>
    replace here := here.trans file
    cases second with
    | absent none => cases here.symm.trans none
    | written file' =>
      cases here.symm.trans file'
      refine ⟨rfl, fun pa under => ?_⟩
      by_cases at' : pa = p
      · rw [at', rewrite_self, rewrite_self]
      · rw [rewrite_other at', rewrite_other at', same pa under]
  | @cut p length old file =>
    replace here := here.trans file
    cases second with
    | absent none => cases here.symm.trans none
    | cut file' =>
      cases here.symm.trans file'
      refine ⟨rfl, fun pa under => ?_⟩
      by_cases at' : pa = p
      · rw [at', rewrite_self, rewrite_self]
      · rw [rewrite_other at', rewrite_other at', same pa under]
  | read file =>
    replace here := here.trans file
    cases second with
    | absent none => cases here.symm.trans none
    | read file' =>
      cases here.symm.trans file'
      exact ⟨rfl, same⟩
  | stat there =>
    replace here := here.trans there
    cases second with
    | absent none => cases here.symm.trans none
    | stat there' =>
      cases here.symm.trans there'
      exact ⟨rfl, same⟩
  | @list p dir =>
    replace here := here.trans dir
    cases second with
    | absent none => cases here.symm.trans none
    | list =>
      refine ⟨?_, same⟩
      simp only [same (p ++ [_]) (List.prefix_append p _)]

/-- The answer and the tree are determined by the request. -/
theorem Serves.unique (first : Serves t request answer t') (second : Serves t request answer' t'') :
    answer = answer' ∧ t' = t'' := by
  obtain ⟨same, below⟩ := first.below second fun _ _ => rfl
  refine ⟨same.symm, FileTree.ext (funext fun pa => ?_)⟩
  by_cases under : request.path <+: pa
  · exact (below pa under).symm
  · rw [first.outside under, second.outside under]

/-- Requests of which neither works above the other can be exchanged. -/
theorem Serves.exchange {request' : TreeRequest ν β} {answer₁ answer₁' : TreeAnswer ν β} {t₂ t₃ : FileTree ν β}
    (apart : ¬ request.path <+: request'.path) (apart' : ¬ request'.path <+: request.path)
    (first : Serves t request answer t₁) (next : Serves t₁ request' answer' t₂)
    (other : Serves t request' answer₁' t') (last : Serves t' request answer₁ t₃) :
    answer = answer₁ ∧ answer' = answer₁' ∧ t₂ = t₃ := by
  have only : ∀ pa, request.path <+: pa → ¬ request'.path <+: pa := fun pa under under' =>
    (List.prefix_or_prefix_of_prefix under under').elim apart apart'
  obtain ⟨same, below⟩ := first.below last fun pa under => other.outside (only pa under)
  obtain ⟨same', below'⟩ := other.below next fun pa under => first.outside fun under' => only pa under' under
  refine ⟨same.symm, same', FileTree.ext (funext fun pa => ?_)⟩
  by_cases under : request.path <+: pa
  · rw [below pa under, next.outside (only pa under)]
  · rw [last.outside under]
    by_cases under' : request'.path <+: pa
    · exact below' pa under'
    · rw [next.outside under', first.outside under, other.outside under']

namespace Serving

variable {requests more : List (TreeRequest ν β)} {answers answers' : List (TreeAnswer ν β)}

/-- The last request of a run. -/
theorem concat (serving : Serving (requests ++ [request]) answers t) :
    ∃ before last t₀, answers = before ++ [last] ∧ Serving requests before t₀ ∧ Serves t₀ request last t := by
  generalize asked : requests ++ [request] = all at serving
  cases serving with
  | nil => exact absurd asked (by simp)
  | next before serves =>
    obtain ⟨rfl, same⟩ := List.append_inj' asked rfl
    obtain rfl := List.singleton_inj.mp same
    exact ⟨_, _, _, rfl, before, serves⟩

theorem length_eq (serving : Serving requests answers t) : answers.length = requests.length := by
  induction serving with
  | nil => rfl
  | next _ _ ih => rw [List.length_append, List.length_append, ih]; rfl

/-- The answers of a run are determined by the requests. -/
theorem unique (first : Serving requests answers t) (second : Serving requests answers' t') :
    answers = answers' ∧ t = t' := by
  induction first generalizing answers' t' with
  | nil =>
    generalize none : ([] : List (TreeRequest ν β)) = all at second
    cases second with
    | nil => exact ⟨rfl, rfl⟩
    | next => exact absurd none (by simp)
  | next _ serves ih =>
    obtain ⟨before, last, t₀, rfl, before', serves'⟩ := second.concat
    obtain ⟨rfl, rfl⟩ := ih before'
    obtain ⟨rfl, rfl⟩ := serves.unique serves'
    exact ⟨rfl, rfl⟩

/-- Runs in which neighbours have been exchanged answer each request alike. -/
theorem exchange {request' : TreeRequest ν β} (apart : ¬ request.path <+: request'.path)
    (apart' : ¬ request'.path <+: request.path)
    (first : Serving (requests ++ [request, request'] ++ more) answers t)
    (second : Serving (requests ++ [request', request] ++ more) answers' t') :
    t = t' ∧ ∃ before answer answer' rest, before.length = requests.length ∧
      answers = before ++ [answer, answer'] ++ rest ∧ answers' = before ++ [answer', answer] ++ rest := by
  induction more using List.reverseRecOn generalizing answers answers' t t' with
  | nil =>
    have split : ∀ a b, requests ++ [a, b] ++ [] = (requests ++ [a]) ++ [b] := by simp
    rw [split] at first second
    obtain ⟨_, answer', t₂, rfl, one, serves₂⟩ := first.concat
    obtain ⟨before, answer, t₁, rfl, one, serves₁⟩ := one.concat
    obtain ⟨_, _, u₂, rfl, two, serves₄⟩ := second.concat
    obtain ⟨_, _, u₁, rfl, two, serves₃⟩ := two.concat
    obtain ⟨rfl, rfl⟩ := one.unique two
    obtain ⟨rfl, rfl, rfl⟩ := Serves.exchange apart apart' serves₁ serves₂ serves₃ serves₄
    exact ⟨rfl, before, answer, answer', [], one.length_eq, by simp, by simp⟩
  | append_singleton more last ih =>
    rw [← List.append_assoc] at first second
    obtain ⟨_, reply, t₁, rfl, one, serves⟩ := first.concat
    obtain ⟨_, _, u₁, rfl, two, serves'⟩ := second.concat
    obtain ⟨rfl, before, answer, answer', rest, length, rfl, rfl⟩ := ih one two
    obtain ⟨rfl, rfl⟩ := serves.unique serves'
    exact ⟨rfl, before, answer, answer', rest ++ [reply], length, by simp, by simp⟩

end Serving

end FileTree
