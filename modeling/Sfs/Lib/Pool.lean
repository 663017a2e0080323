import Mathlib.Data.Finset.Card
import Mathlib.Data.Finset.Image
import Mathlib.Data.Set.Insert

/-- Numbered cells together with the map of those that are free. -/
structure Pool (α : Type) where
  cell : Nat → α
  free : Nat → Bool

namespace Pool

variable {α : Type}

def write (p : Pool α) (q : Nat) (a : α) : Pool α := { p with cell := Function.update p.cell q a }

def take (p : Pool α) (q : Nat) : Pool α := { p with free := Function.update p.free q false }

def give (p : Pool α) (q : Nat) : Pool α := { p with free := Function.update p.free q true }

@[simp] theorem write_free (p : Pool α) (q : Nat) (a : α) : (p.write q a).free = p.free := rfl

@[simp] theorem take_cell (p : Pool α) (q : Nat) : (p.take q).cell = p.cell := rfl

@[simp] theorem give_cell (p : Pool α) (q : Nat) : (p.give q).cell = p.cell := rfl

@[simp] theorem write_cell_self (p : Pool α) (q : Nat) (a : α) : (p.write q a).cell q = a :=
  Function.update_self ..

theorem write_cell_of_ne (p : Pool α) {q r : Nat} (a : α) (ne : r ≠ q) :
    (p.write q a).cell r = p.cell r := Function.update_of_ne ne ..

theorem take_free_iff (p : Pool α) {q r : Nat} :
    (p.take q).free r = true ↔ p.free r = true ∧ r ≠ q := by
  by_cases same : r = q
  · simp [take, same]
  · simp [take, same, Function.update_of_ne]

theorem give_free_iff (p : Pool α) {q r : Nat} :
    (p.give q).free r = true ↔ p.free r = true ∨ r = q := by
  by_cases same : r = q
  · simp [give, same]
  · simp [give, same, Function.update_of_ne]

/-- The number of free cells below `bound`. -/
def freeCount (p : Pool α) (bound : Nat) : Nat := ((Finset.range bound).filter (p.free · = true)).card

theorem freeCount_eq_zero {p : Pool α} {bound : Nat} : p.freeCount bound = 0 ↔ ∀ q < bound, p.free q = false := by
  rw [freeCount, Finset.card_eq_zero, Finset.filter_eq_empty_iff]
  simp only [Finset.mem_range, Bool.not_eq_true]

theorem take_freeCount {p : Pool α} {q bound : Nat} (free : p.free q = true) (within : q < bound) :
    (p.take q).freeCount bound + 1 = p.freeCount bound := by
  have member : q ∈ (Finset.range bound).filter (p.free · = true) := by simp [free, within]
  have erased : (Finset.range bound).filter ((p.take q).free · = true) =
      ((Finset.range bound).filter (p.free · = true)).erase q := by
    ext r
    simp only [Finset.mem_filter, Finset.mem_range, take_free_iff, Finset.mem_erase]
    tauto
  rw [freeCount, erased, Finset.card_erase_add_one member, freeCount]

/-- What a resize of a paged object is asked to do. The object's pages are
numbered; page `c` was held in cell `old c` when `had c`, is wanted afterwards
when `need c`, and its cell is released when `freed c`. -/
structure Plan (p₀ : Pool α) (old : Nat → Nat) (had need freed : Nat → Prop) : Prop where
  inj : ∀ c c', had c → had c' → old c = old c' → c = c'
  used : ∀ c, had c → p₀.free (old c) = false
  dropped : ∀ c, freed c → had c ∧ ¬ need c
  oneWay : ∀ c c', freed c → need c' → had c'

/-- A resize from `p₀`, carried out for the pages in `done`: `new c` is the
cell of page `c`, and `img c` what has been written into it so far. -/
structure Resize (p₀ : Pool α) (bound : Nat) (old : Nat → Nat) (had need freed : Nat → Prop)
    (done : Set Nat) (img : Nat → Option α) (p : Pool α) (new : Nat → Nat) : Prop where
  kept : ∀ c ∈ done, need c → had c → new c = old c
  fresh : ∀ c ∈ done, need c → ¬ had c → p₀.free (new c) = true ∧ new c < bound
  inj : ∀ c ∈ done, ∀ c' ∈ done, need c → need c' → new c = new c' → c = c'
  free : ∀ q, p.free q = true ↔
    (p₀.free q = true ∧ ∀ c ∈ done, need c → new c ≠ q) ∨ ∃ c ∈ done, freed c ∧ old c = q
  frame : ∀ q, (∀ c ∈ done, need c → new c ≠ q) → p.cell q = p₀.cell q
  written : ∀ c ∈ done, need c → ∀ a, img c = some a → p.cell (new c) = a
  blank : ∀ c, c ∉ done → img c = none

namespace Resize

variable {p₀ p : Pool α} {bound : Nat} {old new : Nat → Nat} {had need freed : Nat → Prop}
  {done done' : Set Nat} {img : Nat → Option α} {c q : Nat}

theorem start : Resize p₀ bound old had need freed ∅ (fun _ => none) p₀ new where
  kept := by simp
  fresh := by simp
  inj := by simp
  free := by simp
  frame := by simp
  written := by simp
  blank := by simp

theorem congr (resize : Resize p₀ bound old had need freed done img p new)
    (same : ∀ c, c ∈ done' ↔ c ∈ done) : Resize p₀ bound old had need freed done' img p new :=
  Set.ext same ▸ resize

/-- A cell in use by a page already placed is not the old cell of another. -/
theorem new_ne_old (resize : Resize p₀ bound old had need freed done img p new)
    (plan : Plan p₀ old had need freed) {c' : Nat} (hc : had c) (member : c' ∈ done)
    (hc' : need c') (ne : c' ≠ c) : new c' ≠ old c := by
  intro same
  by_cases was : had c'
  · rw [resize.kept c' member hc' was] at same
    exact ne (plan.inj _ _ was hc same)
  · have free := (resize.fresh c' member hc' was).1
    rw [same, plan.used c hc] at free
    contradiction

/-- Page `c` keeps its cell. -/
theorem keep (resize : Resize p₀ bound old had need freed done img p new)
    (plan : Plan p₀ old had need freed) (todo : c ∉ done) (hc : need c) (was : had c) :
    Resize p₀ bound old had need freed (insert c done) img p (Function.update new c (old c)) := by
  have other : ∀ {c'}, c' ∈ done → Function.update new c (old c) c' = new c' := fun member =>
    Function.update_of_ne (by rintro rfl; exact todo member) ..
  have self : Function.update new c (old c) c = old c := Function.update_self ..
  have apart : ∀ c' ∈ done, need c' → new c' ≠ old c := fun c' member hc' =>
    resize.new_ne_old plan was member hc' (by rintro rfl; exact todo member)
  refine ⟨?_, ?_, ?_, fun q => ?_, fun q avoid => ?_, ?_, fun c' out => resize.blank c' fun h => out (Or.inr h)⟩
  · rintro c' (rfl | member) hc' was'
    · exact self
    · rw [other member, resize.kept c' member hc' was']
  · rintro c' (rfl | member) hc' not'
    · exact absurd was not'
    · rw [other member]; exact resize.fresh c' member hc' not'
  · rintro a (rfl | inA) b (rfl | inB) ha hb same
    · rfl
    · rw [self, other inB] at same; exact absurd same.symm (apart b inB hb)
    · rw [self, other inA] at same; exact absurd same (apart a inA ha)
    · rw [other inA, other inB] at same; exact resize.inj a inA b inB ha hb same
  · rw [resize.free]
    constructor
    · rintro (⟨free, avoid⟩ | ⟨c', member, gone, same⟩)
      · refine Or.inl ⟨free, ?_⟩
        rintro c' (rfl | member) hc' same
        · rw [self] at same; rw [← same, plan.used _ was] at free; contradiction
        · exact avoid c' member hc' (by rw [← other member, same])
      · exact Or.inr ⟨c', Or.inr member, gone, same⟩
    · rintro (⟨free, avoid⟩ | ⟨c', rfl | member, gone, same⟩)
      · exact Or.inl ⟨free, fun c' member hc' => by
          rw [← other member]; exact avoid c' (Or.inr member) hc'⟩
      · exact absurd hc (plan.dropped _ gone).2
      · exact Or.inr ⟨c', member, gone, same⟩
  · exact resize.frame q fun c' member hc' => by
      rw [← other member]; exact avoid c' (Or.inr member) hc'
  · rintro c' (rfl | member) hc' a atImg
    · rw [resize.blank _ todo] at atImg; contradiction
    · rw [other member]; exact resize.written c' member hc' a atImg

/-- Page `c` is given a free cell. -/
theorem take (resize : Resize p₀ bound old had need freed done img p new)
    (plan : Plan p₀ old had need freed) (todo : c ∉ done) (hc : need c) (wasNot : ¬ had c)
    (free : p.free q = true) (within : q < bound) :
    Resize p₀ bound old had need freed (insert c done) img (p.take q) (Function.update new c q) := by
  have other : ∀ {c'}, c' ∈ done → Function.update new c q c' = new c' := fun member =>
    Function.update_of_ne (by rintro rfl; exact todo member) ..
  have self : Function.update new c q c = q := Function.update_self ..
  have ⟨free₀, apart⟩ : p₀.free q = true ∧ ∀ c' ∈ done, need c' → new c' ≠ q := by
    rcases (resize.free q).mp free with h | ⟨c', _, gone, _⟩
    · exact h
    · exact absurd (plan.oneWay c' c gone hc) wasNot
  refine ⟨?_, ?_, ?_, fun r => ?_, fun r avoid => ?_, ?_, fun c' out => resize.blank c' fun h => out (Or.inr h)⟩
  · rintro c' (rfl | member) hc' was'
    · exact absurd was' wasNot
    · rw [other member, resize.kept c' member hc' was']
  · rintro c' (rfl | member) hc' not'
    · rw [self]; exact ⟨free₀, within⟩
    · rw [other member]; exact resize.fresh c' member hc' not'
  · rintro a (rfl | inA) b (rfl | inB) ha hb same
    · rfl
    · rw [self, other inB] at same; exact absurd same.symm (apart b inB hb)
    · rw [self, other inA] at same; exact absurd same (apart a inA ha)
    · rw [other inA, other inB] at same; exact resize.inj a inA b inB ha hb same
  · rw [take_free_iff, resize.free]
    constructor
    · rintro ⟨⟨free', avoid⟩ | ⟨c', member, gone, same⟩, ne⟩
      · refine Or.inl ⟨free', ?_⟩
        rintro c' (rfl | member) hc' same
        · rw [self] at same; exact ne same.symm
        · exact avoid c' member hc' (by rw [← other member, same])
      · exact Or.inr ⟨c', Or.inr member, gone, same⟩
    · rintro (⟨free', avoid⟩ | ⟨c', rfl | member, gone, same⟩)
      · refine ⟨Or.inl ⟨free', fun c' member hc' => ?_⟩, ?_⟩
        · rw [← other member]; exact avoid c' (Or.inr member) hc'
        · rintro rfl; exact avoid c (Or.inl rfl) hc self
      · exact absurd hc (plan.dropped _ gone).2
      · exact absurd (plan.oneWay c' c gone hc) wasNot
  · exact resize.frame r fun c' member hc' => by
      rw [← other member]; exact avoid c' (Or.inr member) hc'
  · rintro c' (rfl | member) hc' a atImg
    · rw [resize.blank _ todo] at atImg; contradiction
    · rw [other member]; exact resize.written c' member hc' a atImg

/-- The cell of a placed page is written. -/
theorem write (resize : Resize p₀ bound old had need freed done img p new)
    (member : c ∈ done) (hc : need c) (a : α) :
    Resize p₀ bound old had need freed done (Function.update img c (some a))
      (p.write (new c) a) new where
  kept := resize.kept
  fresh := resize.fresh
  inj := resize.inj
  free := resize.free
  frame q avoid := by
    rw [write_cell_of_ne _ _ (avoid c member hc).symm]
    exact resize.frame q avoid
  written c' member' hc' b atImg := by
    by_cases same : c' = c
    · subst same
      rw [Function.update_self, Option.some.injEq] at atImg
      rw [write_cell_self, atImg]
    · rw [Function.update_of_ne same] at atImg
      rw [write_cell_of_ne _ _ fun h => same (resize.inj _ member' _ member hc' hc h)]
      exact resize.written c' member' hc' b atImg
  blank c' out := by
    rw [Function.update_of_ne (by rintro rfl; exact out member)]
    exact resize.blank c' out

/-- Page `c` is not wanted and its cell is released. -/
theorem give (resize : Resize p₀ bound old had need freed done img p new)
    (plan : Plan p₀ old had need freed) (gone : freed c) :
    Resize p₀ bound old had need freed (insert c done) img (p.give (old c)) new := by
  have notNeed := (plan.dropped c gone).2
  refine ⟨?_, ?_, ?_, fun r => ?_, fun r avoid => ?_, ?_, fun c' out => resize.blank c' fun h => out (Or.inr h)⟩
  · rintro c' (rfl | member) hc'
    · exact absurd hc' notNeed
    · exact resize.kept c' member hc'
  · rintro c' (rfl | member) hc'
    · exact absurd hc' notNeed
    · exact resize.fresh c' member hc'
  · rintro a (rfl | inA) b (rfl | inB) ha hb same
    · rfl
    · exact absurd ha notNeed
    · exact absurd hb notNeed
    · exact resize.inj a inA b inB ha hb same
  · rw [give_free_iff, resize.free]
    constructor
    · rintro ((⟨free, avoid⟩ | ⟨c', member, gone', same⟩) | rfl)
      · refine Or.inl ⟨free, ?_⟩
        rintro c' (rfl | member) hc'
        · exact absurd hc' notNeed
        · exact avoid c' member hc'
      · exact Or.inr ⟨c', Or.inr member, gone', same⟩
      · exact Or.inr ⟨c, Or.inl rfl, gone, rfl⟩
    · rintro (⟨free, avoid⟩ | ⟨c', rfl | member, gone', same⟩)
      · exact Or.inl (Or.inl ⟨free, fun c' member => avoid c' (Or.inr member)⟩)
      · exact Or.inr same.symm
      · exact Or.inl (Or.inr ⟨c', member, gone', same⟩)
  · exact resize.frame r fun c' member => avoid c' (Or.inr member)
  · rintro c' (rfl | member) hc' a atImg
    · exact absurd hc' notNeed
    · exact resize.written c' member hc' a atImg

/-- Pages that are not wanted, and about which nothing is done. -/
theorem skip (resize : Resize p₀ bound old had need freed done img p new) {more : Set Nat}
    (idle : ∀ c ∈ more, ¬ need c ∧ ¬ freed c) :
    Resize p₀ bound old had need freed (done ∪ more) img p new := by
  refine ⟨?_, ?_, ?_, fun r => ?_, fun r avoid => ?_, ?_, fun c out => resize.blank c fun h => out (Or.inl h)⟩
  · rintro c (member | member) hc
    · exact resize.kept c member hc
    · exact absurd hc (idle c member).1
  · rintro c (member | member) hc
    · exact resize.fresh c member hc
    · exact absurd hc (idle c member).1
  · rintro a (inA | inA) b (inB | inB) ha hb same
    · exact resize.inj a inA b inB ha hb same
    · exact absurd hb (idle b inB).1
    · exact absurd ha (idle a inA).1
    · exact absurd ha (idle a inA).1
  · rw [resize.free]
    constructor
    · rintro (⟨free, avoid⟩ | ⟨c, member, gone⟩)
      · refine Or.inl ⟨free, ?_⟩
        rintro c (member | member) hc
        · exact avoid c member hc
        · exact absurd hc (idle c member).1
      · exact Or.inr ⟨c, Or.inl member, gone⟩
    · rintro (⟨free, avoid⟩ | ⟨c, member | member, gone⟩)
      · exact Or.inl ⟨free, fun c member => avoid c (Or.inl member)⟩
      · exact Or.inr ⟨c, member, gone⟩
      · exact absurd gone.1 (idle c member).2
  · exact resize.frame r fun c member => avoid c (Or.inl member)
  · rintro c (member | member) hc
    · exact resize.written c member hc
    · exact absurd hc (idle c member).1

/-- While the pages still to be acquired are no more than the cells free at
the start, a free cell is left. -/
theorem room (resize : Resize p₀ bound old had need freed done img p new)
    (plan : Plan p₀ old had need freed) [DecidablePred had] [DecidablePred need] (pages : Nat)
    (below : ∀ c, need c → c < pages)
    (budget : ((Finset.range pages).filter (fun c => need c ∧ ¬ had c)).card ≤ p₀.freeCount bound)
    (todo : c ∉ done) (hc : need c) (wasNot : ¬ had c) : ∃ q < bound, p.free q = true := by
  classical
  by_contra none
  have full : ∀ q < bound, p.free q ≠ true := fun q within free => none ⟨q, within, free⟩
  have inImage : (Finset.range bound).filter (p₀.free · = true) ⊆
      (((Finset.range pages).filter (fun c => need c ∧ ¬ had c)).erase c).image new := by
    intro q member
    simp only [Finset.mem_filter, Finset.mem_range] at member
    obtain ⟨within, free₀⟩ := member
    have taken : ∃ c' ∈ done, need c' ∧ new c' = q := by
      by_contra avoid
      exact full q within ((resize.free q).mpr (Or.inl ⟨free₀, fun c' h hn same =>
        avoid ⟨c', h, hn, same⟩⟩))
    obtain ⟨c', member, hc', same⟩ := taken
    have notHad : ¬ had c' := by
      intro was
      rw [← same, resize.kept c' member hc' was, plan.used c' was] at free₀
      contradiction
    simp only [Finset.mem_image, Finset.mem_erase, Finset.mem_filter, Finset.mem_range]
    exact ⟨c', ⟨by rintro rfl; exact todo member, below c' hc', hc', notHad⟩, same⟩
  have small := (Finset.card_le_card inImage).trans Finset.card_image_le
  have positive := Finset.card_erase_lt_of_mem
    (show c ∈ (Finset.range pages).filter (fun c => need c ∧ ¬ had c) by
      simp [below c hc, hc, wasNot])
  simp only [freeCount] at budget
  omega

end Resize

/-- The cells of `A` have been taken and those of `B` given back. -/
theorem freeCount_exchange (p p' : Pool α) (bound : Nat) (A B : Finset Nat) (new old : Nat → Nat)
    (free : ∀ q, p'.free q = true ↔ (p.free q = true ∧ ∀ c ∈ A, new c ≠ q) ∨ ∃ c ∈ B, old c = q)
    (taken : ∀ c ∈ A, p.free (new c) = true ∧ new c < bound) (injNew : Set.InjOn new A)
    (given : ∀ c ∈ B, p.free (old c) = false ∧ old c < bound) (injOld : Set.InjOn old B) :
    p'.freeCount bound + A.card = p.freeCount bound + B.card := by
  have after : (Finset.range bound).filter (p'.free · = true) =
      ((Finset.range bound).filter (p.free · = true) \ A.image new) ∪ B.image old := by
    ext q
    simp only [Finset.mem_filter, Finset.mem_range, free, Finset.mem_union, Finset.mem_sdiff, Finset.mem_image,
      not_exists, not_and]
    constructor
    · rintro ⟨within, ⟨isFree, avoid⟩ | back⟩
      · exact Or.inl ⟨⟨within, isFree⟩, avoid⟩
      · exact Or.inr back
    · rintro (⟨⟨within, isFree⟩, avoid⟩ | ⟨c, member, rfl⟩)
      · exact ⟨within, Or.inl ⟨isFree, avoid⟩⟩
      · exact ⟨(given c member).2, Or.inr ⟨c, member, rfl⟩⟩
  have apart : Disjoint ((Finset.range bound).filter (p.free · = true) \ A.image new) (B.image old) := by
    refine Finset.disjoint_left.mpr fun q inF inB => ?_
    obtain ⟨c, member, rfl⟩ := Finset.mem_image.mp inB
    have isFree := (Finset.mem_filter.mp (Finset.mem_sdiff.mp inF).1).2
    rw [(given c member).1] at isFree
    exact Bool.false_ne_true isFree
  have sub : A.image new ⊆ (Finset.range bound).filter (p.free · = true) := fun q inA => by
    obtain ⟨c, member, rfl⟩ := Finset.mem_image.mp inA
    exact Finset.mem_filter.mpr ⟨Finset.mem_range.mpr (taken c member).2, (taken c member).1⟩
  have fewer := Finset.card_sdiff_add_card_eq_card sub
  rw [Finset.card_image_of_injOn injNew] at fewer
  rw [freeCount, after, Finset.card_union_of_disjoint apart, Finset.card_image_of_injOn injOld, freeCount]
  omega

end Pool
