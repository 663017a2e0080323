import Sfs.Content
import Sfs.SetIndex

namespace Sfs

/-- Node `k` of `p` has been given the first entries of `buf`, up to `ptrEnd`. -/
structure Resized (p p' : Pool Bytes) (k ptrEnd : Nat) (newsize : Nat) (buf : Bytes)
    (cacheEnd : Nat) : Prop where
  head : ∀ o < 16, o < 4 ∨ 12 ≤ o → p'.cell k o = p.cell k o
  size : size (p'.cell k) = newsize
  content : ∀ o, Filled ptrEnd o → content p'.cell (p'.cell k) o = buf o
  kept : ∀ c, Wants ptrEnd c → Wants cacheEnd c → pageNo p'.cell (p'.cell k) c = pageNo p.cell (p.cell k) c
  fresh : ∀ c, Wants ptrEnd c → ¬ Wants cacheEnd c → p.free (pageNo p'.cell (p'.cell k) c) = true ∧
    pageNo p'.cell (p'.cell k) c < 1024
  inj : ∀ c c', Wants ptrEnd c → Wants ptrEnd c' →
    pageNo p'.cell (p'.cell k) c = pageNo p'.cell (p'.cell k) c' → c = c'
  free : ∀ q, p'.free q = true ↔
    (p.free q = true ∧ ∀ c, Wants ptrEnd c → pageNo p'.cell (p'.cell k) c ≠ q) ∨
      ∃ c, Freed ptrEnd cacheEnd c ∧ pageNo p.cell (p.cell k) c = q
  frame : ∀ q, q ≠ k → (∀ c, Wants ptrEnd c → pageNo p'.cell (p'.cell k) c ≠ q) →
    p'.cell q = p.cell q

theorem copy_header_apply {x buf : Bytes} {o n : Nat} (out : o < 16 ∧ o ≠ 4 ∧ o ≠ 5 ∨ 112 ≤ o) :
    ((setSize x n).copy 16 buf 0 96) o = x o := by
  rw [Bytes.copy_apply_of_not_mem (by omega)]
  exact Bytes.put16_apply_of_ne (by omega)

theorem content_page {cell : Nat → Bytes} {x buf : Bytes} {o : Nat} (past : 96 ≤ o)
    (page : cell (pageNo cell x (leafOf o)) = pageOf buf (pagePtr (leafOf o))) :
    content cell x o = buf o := by
  rw [content, if_neg (by omega), page, pageOf, INODE_SIZE, Bytes.window_apply_of_lt (by omega),
    pagePtr_leafOf past]
  congr 1
  omega

/-- A leaf page holds the part of the buffer at its offset. -/
theorem leafOf_cases {o ptrEnd : Nat} (past : 96 ≤ o) (wants : Wants ptrEnd (leafOf o)) :
    leafOf o < 4 ∨ ∃ i < 4, ∃ j < 64, leafOf o = leafCode i j := by
  have within := (leafOf_lt past).mp wants.1
  by_cases first : o < 608
  · rw [leafOf_first past first]
    omega
  · rw [leafOf_leaf (by omega)]
    exact Or.inr ⟨_, by omega, _, by omega, rfl⟩

variable {s : State} {k n entry : Nat} {buf : Bytes}

theorem listingSet_spec (lower : 2 ≤ k) (upper : k < 1024)
    (own : ino (s.slots.cell k) = k) (used : s.slots.free k = false)
    (ok : PagesOk s.slots (s.slots.cell k) (entry * size (s.slots.cell k)))
    (apart : ∀ c, Wants (entry * size (s.slots.cell k)) c →
      pageNo s.slots.cell (s.slots.cell k) c ≠ k)
    (small : n < 65536)
    (supplied : Supplied s.slots (entry * n) (entry * size (s.slots.cell k))
      (listingSet entry buf s k n)) :
    Paging s (listingSet entry buf s k n) ∧
      Resized s.slots (listingSet entry buf s k n).slots k (entry * n) n buf
        (entry * size (s.slots.cell k)) ∧
      ∀ o, 6 ≤ o → o < 12 → (listingSet entry buf s k n).slots.cell k o = s.slots.cell k o := by
  have loaded : inodeLoad s k = s.slots.cell k := inodeLoad_slot (by omega)
  have natural : ((n : Int)).toNat = n := Int.toNat_natCast n
  have short : ushort n = n := by simp only [ushort]; omega
  generalize final : listingSet entry buf s k n = s' at supplied ⊢
  simp only [listingSet, loaded, natural, short] at final
  generalize cacheIs : entry * size (s.slots.cell k) = cacheEnd at *
  generalize endIs : entry * n = ptrEnd at *
  generalize atX₀ : s.slots.cell k = x₀ at *
  generalize firstIs : setPages buf ptrEnd cacheEnd s ((setSize x₀ n).copy 16 buf 0 96) 96 0 4 = first
    at final
  generalize allIs : setIndex buf ptrEnd cacheEnd first.1 first.2 608 0 4 = all at final
  have onwardAll : Onward all.1 s' := final ▸ onward_steps.dump _ _ _
  have onwardFirst : Onward first.1 s' := (allIs ▸ onward_steps.setIndex).trans onwardAll
  have field : ∀ a, 112 ≤ a → ((setSize x₀ n).copy 16 buf 0 96).get16 a = x₀.get16 a := fun a ha =>
    Bytes.get16_congr (copy_header_apply (by omega)) (copy_header_apply (by omega))
  obtain ⟨img₁, new₁, stage₁, bytes₁, pages₁⟩ := setPages_spec buf ((setSize x₀ n).copy 16 buf 0 96) 96 0 4 ok
    ((Stage.start s x₀ (fun _ => 0)).congr (by simp)) rfl rfl (by simp)
    (fun c _ _ => field _ (by omega)) supplied (firstIs ▸ onwardFirst)
  rw [firstIs] at stage₁ bytes₁ pages₁
  obtain ⟨img, new, stage, same₁, bytes₂, groups⟩ := setIndex_spec buf first.2 608 0 4 ok
    (stage₁.congr (by simp [indexCode])) rfl rfl (by simp)
    (fun a _ _ => by
      refine Eq.trans (Bytes.get16_congr ?_ ?_) (field (120 + 2 * a) (by omega)) <;>
        exact bytes₁ _ (by omega))
    supplied (allIs ▸ onwardAll)
  rw [allIs] at stage bytes₂ groups
  have pages : ∀ c < 4, Wants ptrEnd c →
      pnum all.2 c = new c ∧ img c = some (pageOf buf (pagePtr c)) := by
    intro c hc wants
    obtain ⟨number, image⟩ := pages₁ c hc wants
    obtain ⟨sameNew, sameImg⟩ := same₁ c (by simp only [indexCode]; omega)
    refine ⟨?_, by rw [sameImg, image]⟩
    rw [sameNew, ← number]
    exact Bytes.get16_congr (bytes₂ _ (by omega)) (bytes₂ _ (by omega))
  have bytes : ∀ o < 112, all.2 o = ((setSize x₀ n).copy 16 buf 0 96) o := fun o ho => by
    rw [bytes₂ o (by omega), bytes₁ o (by omega)]
  have ownAll : ino all.2 = k := by
    rw [← own]
    refine Bytes.get16_congr ?_ ?_ <;> rw [bytes _ (by omega)] <;>
      exact copy_header_apply (by omega)
  rw [ownAll] at final
  subst final
  have pool : (inodeDump all.1 k all.2).slots = all.1.slots.write k (all.2.take 128) := slots_inodeDump (by omega)
  refine ⟨stage.paging.inodeDump upper fun _ => lower, ?_⟩
  have kept : ∀ o < 16, o ≠ 4 → o ≠ 5 → all.2.take 128 o = x₀ o := fun o within ne ne' => by
    rw [Bytes.take_apply_of_lt (by omega), bytes o (by omega), copy_header_apply (by omega)]
  rw [pool]
  have member : ∀ {c}, Wants ptrEnd c → c ∈ {c | c < 264} := fun wants => wants.1
  have newNe : ∀ c, Wants ptrEnd c → new c ≠ k := by
    intro c wants same
    by_cases was : Wants cacheEnd c
    · rw [stage.resize.kept c (member wants) wants was] at same
      exact apart c was same
    · have free := (stage.resize.fresh c (member wants) wants was).1
      rw [same, used] at free
      exact Bool.false_ne_true free
  have image : ∀ c, Wants ptrEnd c → ∀ y, img c = some y →
      (all.1.slots.write k (all.2.take 128)).cell (new c) = y := by
    intro c wants y atY
    rw [Pool.write_cell_of_ne _ _ (newNe c wants)]
    exact stage.resize.written c (member wants) wants y atY
  have self : (all.1.slots.write k (all.2.take 128)).cell k = all.2.take 128 :=
    Pool.write_cell_self ..
  rw [← atX₀] at stage cacheIs
  generalize newPool : all.1.slots.write k (all.2.take 128) = p' at *
  have freeSame : p'.free = all.1.slots.free := newPool ▸ rfl
  have takePnum : ∀ i < 4, pnum (all.2.take 128) i = pnum all.2 i := fun i hi =>
    Bytes.get16_take (by omega)
  have takeExPnum : ∀ i < 4, exPnum (all.2.take 128) i = exPnum all.2 i := fun i hi =>
    Bytes.get16_take (by omega)
  have number : ∀ c, Wants ptrEnd c → pageNo p'.cell (p'.cell k) c = new c := by
    intro c wants
    rw [self]
    rcases code_cases wants.1 with one | ⟨i, hi, rfl⟩ | ⟨i, hi, j, hj, rfl⟩
    · rw [pageNo_first one, takePnum c one]
      exact (pages c one wants).1
    · rw [pageNo_index, takeExPnum i hi]
      exact (groups i hi wants).index
    · have index := wants.index_of_leaf hi hj
      obtain ⟨y, atY, table⟩ := (groups i hi index).table
      rw [pageNo_leaf hj, takeExPnum i hi, (groups i hi index).index, image _ index y atY]
      exact table j hj wants
  have pageImage : ∀ o, 96 ≤ o → Wants ptrEnd (leafOf o) →
      img (leafOf o) = some (pageOf buf (pagePtr (leafOf o))) := by
    intro o past wants
    rcases leafOf_cases past wants with one | ⟨i, hi, j, hj, code⟩
    · exact (pages _ one wants).2
    · rw [code] at wants ⊢
      exact (groups i hi (wants.index_of_leaf hi hj)).leaves j hj wants
  refine ⟨?_, fun o lower upper => by rw [self]; exact kept o (by omega) (by omega) (by omega)⟩
  constructor
  · intro o within fixed
    rw [self, kept o within (by omega) (by omega), atX₀]
  · have atSize : size (all.2.take 128) = size (setSize x₀ n) := by
      refine Bytes.get16_congr ?_ ?_ <;>
        rw [Bytes.take_apply_of_lt (by omega), bytes _ (by omega), Bytes.copy_apply_of_not_mem (by omega)]
    rw [self, atSize, size, setSize, Bytes.get16_put16_self, Nat.mod_eq_of_lt small]
  · intro o filled
    by_cases inline : o < 96
    · rw [content, if_pos inline, self, Bytes.take_apply_of_lt (by omega), bytes _ (by omega),
        Bytes.copy_apply_of_mem (by omega) (by omega)]
      congr 1
      omega
    · have wants := filled.resolve_left inline
      refine content_page (by omega) ?_
      rw [number _ wants]
      exact image _ wants _ (pageImage o (by omega) wants)
  · intro c wants was
    rw [number c wants, stage.resize.kept c (member wants) wants was, atX₀]
  · intro c wants wasNot
    rw [number c wants]
    exact stage.resize.fresh c (member wants) wants wasNot
  · intro c c' wants wants' same
    rw [number c wants, number c' wants'] at same
    exact stage.resize.inj c (member wants) c' (member wants') wants wants' same
  · intro q
    rw [freeSame, stage.resize.free, atX₀]
    refine or_congr (and_congr_right fun _ => ⟨fun h c wants => ?_, fun h c _ wants => ?_⟩)
      ⟨fun given => given.imp fun c both => both.2, fun given => given.imp fun c freed => ⟨freed.1.1.1, freed⟩⟩
    · rw [number c wants]
      exact h c (member wants) wants
    · rw [← number c wants]
      exact h c wants
  · intro q ne avoid
    rw [← newPool, Pool.write_cell_of_ne _ _ ne]
    refine stage.resize.frame q fun c _ wants => ?_
    rw [← number c wants]
    exact avoid c wants

end Sfs
