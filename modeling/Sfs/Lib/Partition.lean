import Mathlib.Algebra.BigOperators.Group.Finset.Basic
import Mathlib.Data.Finset.Card
import Mathlib.Algebra.Order.BigOperators.Group.Finset

/-! A finite set that is split into a list and the lists of some owners. -/

namespace Partition

variable {ι α : Type} {whole : Finset α} {free : List α} {owners : Finset ι} {part : ι → List α}

/-- The lists have as many elements together as they are long. -/
theorem card_elements [DecidableEq α] (nodup : free.Nodup) (nodup' : ∀ i ∈ owners, (part i ++ free).Nodup)
    (apart : ∀ i ∈ owners, ∀ j ∈ owners, i ≠ j → (part i).Disjoint (part j)) :
    (free.toFinset ∪ owners.biUnion fun i => (part i).toFinset).card = free.length + ∑ i ∈ owners, (part i).length := by
  have disjoint : Disjoint free.toFinset (owners.biUnion fun i => (part i).toFinset) := by
    refine Finset.disjoint_left.mpr fun a isFree owned => ?_
    obtain ⟨i, owner, member⟩ := Finset.mem_biUnion.mp owned
    exact List.disjoint_of_nodup_append (nodup' i owner) (List.mem_toFinset.mp member) (List.mem_toFinset.mp isFree)
  have parts : (owners.biUnion fun i => (part i).toFinset).card = ∑ i ∈ owners, (part i).length := by
    rw [Finset.card_biUnion]
    · exact Finset.sum_congr rfl fun i owner => List.toFinset_card_of_nodup (nodup' i owner).of_append_left
    · intro i owner j owner' ne
      refine Finset.disjoint_left.mpr fun a member member' => ?_
      exact apart i owner j owner' ne (List.mem_toFinset.mp member) (List.mem_toFinset.mp member')
  rw [Finset.card_union_of_disjoint disjoint, parts, List.toFinset_card_of_nodup nodup]

section

variable (inside : ∀ a ∈ free, a ∈ whole) (inside' : ∀ i ∈ owners, ∀ a ∈ part i, a ∈ whole) (nodup : free.Nodup)
  (nodup' : ∀ i ∈ owners, (part i ++ free).Nodup)
  (apart : ∀ i ∈ owners, ∀ j ∈ owners, i ≠ j → (part i).Disjoint (part j))

include inside inside' nodup nodup' apart

/-- Lists that leave nothing of the set out have as many elements together. -/
theorem length_add_sum (cover : ∀ a ∈ whole, a ∈ free ∨ ∃ i ∈ owners, a ∈ part i) :
    free.length + ∑ i ∈ owners, (part i).length = whole.card := by
  classical
  have split : whole = free.toFinset ∪ owners.biUnion fun i => (part i).toFinset := by
    ext a
    simp only [Finset.mem_union, List.mem_toFinset, Finset.mem_biUnion]
    refine ⟨cover a, ?_⟩
    rintro (member | ⟨i, owner, member⟩)
    · exact inside a member
    · exact inside' i owner a member
  rw [split, card_elements nodup nodup' apart]

/-- Lists with as many elements together as the set leave nothing of it out. -/
theorem cover_of_length (total : free.length + ∑ i ∈ owners, (part i).length = whole.card) :
    ∀ a ∈ whole, a ∈ free ∨ ∃ i ∈ owners, a ∈ part i := by
  classical
  have sub : (free.toFinset ∪ owners.biUnion fun i => (part i).toFinset) ⊆ whole := fun a member => by
    simp only [Finset.mem_union, List.mem_toFinset, Finset.mem_biUnion] at member
    rcases member with isFree | ⟨i, owner, held⟩
    · exact inside a isFree
    · exact inside' i owner a held
  have same := Finset.eq_of_subset_of_card_le sub (by rw [card_elements nodup nodup' apart, total])
  intro a member
  rw [← same] at member
  simpa only [Finset.mem_union, List.mem_toFinset, Finset.mem_biUnion] using member

end

end Partition
