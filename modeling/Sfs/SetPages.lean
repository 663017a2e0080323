import Sfs.Stage

namespace Sfs

variable {x : Bytes} {i j v q : Nat}

theorem pnum_setPnum_self (within : v < 65536) : pnum (setPnum x i v) i = v := by
  rw [pnum, setPnum, Bytes.get16_put16_self, Nat.mod_eq_of_lt within]

theorem pnum_setPnum_of_ne (ne : j ≠ i) : pnum (setPnum x i v) j = pnum x j :=
  Bytes.get16_put16_of_ne (by omega)

theorem exPnum_setExPnum_self (within : v < 65536) : exPnum (setExPnum x i v) i = v := by
  rw [exPnum, setExPnum, Bytes.get16_put16_self, Nat.mod_eq_of_lt within]

theorem exPnum_setExPnum_of_ne (ne : j ≠ i) : exPnum (setExPnum x i v) j = exPnum x j :=
  Bytes.get16_put16_of_ne (by omega)

theorem exnum_setExnum_self (within : v < 65536) : exnum (setExnum x i v) i = v := by
  rw [exnum, setExnum, Bytes.get16_put16_self, Nat.mod_eq_of_lt within]

theorem exnum_setExnum_of_ne (ne : j ≠ i) : exnum (setExnum x i v) j = exnum x j :=
  Bytes.get16_put16_of_ne (by omega)

theorem take_pageOf (buf : Bytes) (ptr : Nat) : (pageOf buf ptr).take 128 = pageOf buf ptr :=
  Bytes.take_take

variable {s₀ s final : State} {x₀ buf : Bytes} {ptrEnd cacheEnd ptr n : Nat}
  {img : Nat → Option Bytes} {new : Nat → Nat}

/-- The loop over the level-1 leaf pages places all of them. -/
theorem setPages_spec (buf x : Bytes) (ptr i n : Nat) (ok : PagesOk s₀.slots x₀ cacheEnd)
    (stage : Stage s₀ x₀ ptrEnd cacheEnd {c | c < i} img s new)
    (count : i + n = 4) (atPtr : ptr = 96 + 128 * i)
    (placed : ∀ c < i, Wants ptrEnd c → pnum x c = new c ∧ img c = some (pageOf buf (pagePtr c)))
    (ahead : ∀ c, i ≤ c → c < 4 → pnum x c = pnum x₀ c)
    (supplied : Supplied s₀.slots ptrEnd cacheEnd final)
    (onward : Onward (setPages buf ptrEnd cacheEnd s x ptr i n).1 final) :
    ∃ img' new', Stage s₀ x₀ ptrEnd cacheEnd {c | c < 4} img'
        (setPages buf ptrEnd cacheEnd s x ptr i n).1 new' ∧
      (∀ o, o < 112 ∨ 120 ≤ o → (setPages buf ptrEnd cacheEnd s x ptr i n).2 o = x o) ∧
      ∀ c < 4, Wants ptrEnd c → pnum (setPages buf ptrEnd cacheEnd s x ptr i n).2 c = new' c ∧
        img' c = some (pageOf buf (pagePtr c)) := by
  induction n generalizing s x ptr i img new with
  | zero =>
    have all : i = 4 := by omega
    subst all
    exact ⟨img, new, stage, fun _ _ => rfl, placed⟩
  | succ n ih =>
    have within : i < 4 := by omega
    have todo : i ∉ {c | c < i} := by simp
    have next : ∀ c, c ∈ {c | c < i + 1} ↔ c ∈ insert i {c | c < i} := fun c => by
      simp only [Set.mem_ofPred_eq, Set.mem_insert_iff]; omega
    have old : pageNo s₀.slots.cell x₀ i = pnum x i := by
      rw [pageNo_first within, ahead i le_rfl within]
    by_cases inside : ptr ≥ ptrEnd
    · have notWants : ¬ Wants ptrEnd i := by rw [wants_first within]; omega
      have placed' : ∀ c < i + 1, Wants ptrEnd c →
          pnum x c = new c ∧ img c = some (pageOf buf (pagePtr c)) := fun c hc wants =>
        placed c (by by_contra; exact notWants (by rwa [show c = i by omega] at wants)) wants
      by_cases was : ptr < cacheEnd
      · have freed : Freed ptrEnd cacheEnd i :=
          ⟨by rw [wants_first within]; omega, notWants, fun _ => by omega⟩
        have given := (stage.give ok freed).congr next
        rw [old] at given
        simp only [setPages, inside, was, if_true] at onward ⊢
        exact ih _ _ _ given (by omega) (by omega) placed' (fun c lower => ahead c (by omega)) onward
      · have idle : ∀ c ∈ ({i} : Set Nat), ¬ Wants ptrEnd c ∧ ¬ Freed ptrEnd cacheEnd c := by
          rintro c rfl
          refine ⟨notWants, fun freed => ?_⟩
          have wanted := freed.1
          rw [wants_first within] at wanted
          omega
        have skipped : Stage s₀ x₀ ptrEnd cacheEnd {c | c < i + 1} img s new := (stage.skip idle).congr fun c => by
          simp only [Set.mem_ofPred_eq, Set.mem_union, Set.mem_singleton_iff]; omega
        simp only [setPages, inside, was, if_true, if_false] at onward ⊢
        exact ih _ _ _ skipped (by omega) (by omega) placed' (fun c lower => ahead c (by omega)) onward
    · have wants : Wants ptrEnd i := by rw [wants_first within]; omega
      -- both ways of placing page `i` leave the earlier pages as they are
      have place : ∀ {x' : Bytes} {r : Nat}, pnum x' i = r → (∀ c, c ≠ i → pnum x' c = pnum x c) →
          ∀ c < i + 1, Wants ptrEnd c → pnum x' c = Function.update new i r c ∧
            Function.update img i (some (pageOf buf ptr)) c = some (pageOf buf (pagePtr c)) := by
        intro x' r self others c hc hw
        by_cases same : c = i
        · subst same
          rw [Function.update_self, Function.update_self, self, pagePtr_first within, atPtr]
          exact ⟨rfl, rfl⟩
        · rw [Function.update_of_ne same, Function.update_of_ne same, others c same]
          exact placed c (by omega) hw
      by_cases fresh : ptr ≥ cacheEnd
      · have wasNot : ¬ Wants cacheEnd i := by rw [wants_first within]; omega
        simp only [setPages, inside, fresh, if_true, if_false] at onward ⊢
        have popOnward : Onward (freeInodePop s).2 final :=
          (onward_steps.dump _ _ _).trans (onward_steps.setPages.trans onward)
        obtain ⟨q, s', run, upper, popped⟩ := stage.pop ok todo wants wasNot supplied popOnward
        simp only [run] at onward ⊢
        have self : pnum (setPnum x i q) i = q := pnum_setPnum_self (by omega)
        have dumped := popped.dump ok (Set.mem_insert ..) wants (pageOf buf ptr)
        rw [Function.update_self, take_pageOf, ← self] at dumped
        obtain ⟨img', new', stage', frame, all⟩ := ih _ _ _ (dumped.congr next) (by omega) (by omega)
          (place rfl fun c ne => pnum_setPnum_of_ne ne)
          (fun c lower upper => by rw [pnum_setPnum_of_ne (by omega)]; exact ahead c (by omega) upper)
          onward
        refine ⟨img', new', stage', fun o out => ?_, all⟩
        rw [frame o out]
        exact Bytes.put16_apply_of_ne (by omega)
      · have was : Wants cacheEnd i := by rw [wants_first within]; omega
        simp only [setPages, inside, fresh, if_false] at onward ⊢
        have dumped := (stage.keep ok todo wants was).dump ok (Set.mem_insert ..) wants (pageOf buf ptr)
        rw [Function.update_self, take_pageOf, old] at dumped
        exact ih _ _ _ (dumped.congr next) (by omega) (by omega) (place rfl fun _ _ => rfl)
          (fun c lower => ahead c (by omega)) onward

end Sfs
