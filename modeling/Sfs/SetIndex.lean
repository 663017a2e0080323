import Sfs.SetPages

namespace Sfs

variable {s₀ s final : State} {x₀ x lv1 buf : Bytes} {ptrEnd cacheEnd ptr i j n : Nat}
  {img : Nat → Option Bytes} {new : Nat → Nat}

/-- The loop over the leaf pages of an index page that is kept or new places
all of them. -/
theorem setLeaves_spec (ok : PagesOk s₀.slots x₀ cacheEnd) (group : i < 4)
    (stays : 608 + 8192 * i < ptrEnd)
    (stage : Stage s₀ x₀ ptrEnd cacheEnd {c | c < leafCode i j} img s new)
    (count : j + n = 64) (atPtr : ptr = 608 + 8192 * i + 128 * j)
    (placed : ∀ a < j, Wants ptrEnd (leafCode i a) → exnum lv1 a = new (leafCode i a) ∧
      img (leafCode i a) = some (pageOf buf (pagePtr (leafCode i a))))
    (ahead : ∀ a, j ≤ a → a < 64 → Wants cacheEnd (leafCode i a) →
      exnum lv1 a = pageNo s₀.slots.cell x₀ (leafCode i a))
    (supplied : Supplied s₀.slots ptrEnd cacheEnd final)
    (onward : Onward (setLeaves buf ptrEnd cacheEnd s lv1 ptr j n).1 final) :
    ∃ img' new', Stage s₀ x₀ ptrEnd cacheEnd {c | c < leafCode i 64} img'
        (setLeaves buf ptrEnd cacheEnd s lv1 ptr j n).1 new' ∧
      (∀ c < leafCode i j, new' c = new c ∧ img' c = img c) ∧
      ∀ a < 64, Wants ptrEnd (leafCode i a) →
        exnum (setLeaves buf ptrEnd cacheEnd s lv1 ptr j n).2 a = new' (leafCode i a) ∧
        img' (leafCode i a) = some (pageOf buf (pagePtr (leafCode i a))) := by
  induction n generalizing s lv1 ptr j img new with
  | zero =>
    have all : j = 64 := by omega
    subst all
    exact ⟨img, new, stage, fun _ _ => ⟨rfl, rfl⟩, placed⟩
  | succ n ih =>
    have within : j < 64 := by omega
    have step : leafCode i (j + 1) = leafCode i j + 1 := by simp only [leafCode]; omega
    have todo : leafCode i j ∉ {c | c < leafCode i j} := by simp
    have next : ∀ c, c ∈ {c | c < leafCode i (j + 1)} ↔ c ∈ insert (leafCode i j) {c | c < leafCode i j} :=
      fun c => by simp only [Set.mem_ofPred_eq, Set.mem_insert_iff, step]; omega
    by_cases inside : ptr < ptrEnd
    · have wants : Wants ptrEnd (leafCode i j) := by rw [wants_leaf group within]; omega
      have place : ∀ {y : Bytes} {r : Nat}, exnum y j = r → (∀ a, a ≠ j → exnum y a = exnum lv1 a) →
          ∀ a < j + 1, Wants ptrEnd (leafCode i a) →
            exnum y a = Function.update new (leafCode i j) r (leafCode i a) ∧
            Function.update img (leafCode i j) (some (pageOf buf ptr)) (leafCode i a) =
              some (pageOf buf (pagePtr (leafCode i a))) := by
        intro y r self others a ha hw
        by_cases same : a = j
        · subst same
          rw [Function.update_self, Function.update_self, self, pagePtr_leaf within, atPtr]
          exact ⟨rfl, rfl⟩
        · have ne : leafCode i a ≠ leafCode i j := by simp only [leafCode]; omega
          rw [Function.update_of_ne ne, Function.update_of_ne ne, others a same]
          exact placed a (by omega) hw
      have before : ∀ {r : Nat} {y : Option Bytes}, ∀ c < leafCode i j,
          Function.update new (leafCode i j) r c = new c ∧
          Function.update img (leafCode i j) y c = img c := fun c hc =>
        ⟨Function.update_of_ne (by omega) .., Function.update_of_ne (by omega) ..⟩
      by_cases fresh : ptr ≥ cacheEnd
      · have wasNot : ¬ Wants cacheEnd (leafCode i j) := by rw [wants_leaf group within]; omega
        simp only [setLeaves, inside, fresh, if_true] at onward ⊢
        have popOnward : Onward (freeInodePop s).2 final :=
          (onward_steps.dump _ _ _).trans (onward_steps.setLeaves.trans onward)
        obtain ⟨q, s', run, upper, popped⟩ := stage.pop ok todo wants wasNot supplied popOnward
        simp only [run] at onward ⊢
        have self : exnum (setExnum lv1 j q) j = q := exnum_setExnum_self (by omega)
        have dumped := popped.dump ok (Set.mem_insert ..) wants (pageOf buf ptr)
        rw [Function.update_self, take_pageOf, ← self] at dumped
        obtain ⟨img', new', stage', frame, all⟩ := ih (dumped.congr next) (by omega) (by omega)
          (place rfl fun a ne => exnum_setExnum_of_ne ne)
          (fun a lower upper => by rw [exnum_setExnum_of_ne (by omega)]; exact ahead a (by omega) upper)
          onward
        refine ⟨img', new', stage', fun c hc => ?_, all⟩
        rw [(frame c (by omega)).1, (frame c (by omega)).2]
        exact before c hc
      · have was : Wants cacheEnd (leafCode i j) := by rw [wants_leaf group within]; omega
        simp only [setLeaves, inside, fresh, if_true, if_false] at onward ⊢
        have dumped := (stage.keep ok todo wants was).dump ok (Set.mem_insert ..) wants (pageOf buf ptr)
        rw [Function.update_self, take_pageOf, ← ahead j le_rfl within was] at dumped
        obtain ⟨img', new', stage', frame, all⟩ := ih (dumped.congr next) (by omega) (by omega)
          (place rfl fun _ _ => rfl) (fun a lower => ahead a (by omega)) onward
        refine ⟨img', new', stage', fun c hc => ?_, all⟩
        rw [(frame c (by omega)).1, (frame c (by omega)).2]
        exact before c hc
    · have notWants : ¬ Wants ptrEnd (leafCode i j) := by rw [wants_leaf group within]; omega
      -- a leaf page dropped here is not released: its index page stays
      have idle : ∀ c ∈ ({leafCode i j} : Set Nat), ¬ Wants ptrEnd c ∧ ¬ Freed ptrEnd cacheEnd c := by
        rintro c rfl
        refine ⟨notWants, fun freed => ?_⟩
        have gone := freed.2.2 (by simp only [leafCode]; omega)
        rw [leafCode_sub] at gone
        omega
      have skipped : Stage s₀ x₀ ptrEnd cacheEnd {c | c < leafCode i (j + 1)} img s new := (stage.skip idle).congr fun c => by
        simp only [Set.mem_ofPred_eq, Set.mem_union, Set.mem_singleton_iff, step]; omega
      simp only [setLeaves, inside, if_false] at onward ⊢
      obtain ⟨img', new', stage', frame, all⟩ := ih skipped (by omega) (by omega)
        (fun a ha wants => placed a (by
          by_contra; exact notWants (by rwa [show a = j by omega] at wants)) wants)
        (fun a lower => ahead a (by omega)) onward
      exact ⟨img', new', stage', fun c hc => frame c (by omega), all⟩

/-- The loop over the leaf pages of a dropped index page releases them. -/
theorem releaseLeaves_spec (lv1 : Bytes) (ptr j n : Nat) (ok : PagesOk s₀.slots x₀ cacheEnd) (group : i < 4)
    (gone : ptrEnd ≤ 608 + 8192 * i)
    (stage : Stage s₀ x₀ ptrEnd cacheEnd
      {c | c < indexCode i ∨ leafCode i 0 ≤ c ∧ c < leafCode i j} img s new)
    (count : j + n = 64) (atPtr : ptr = 608 + 8192 * i + 128 * j)
    (pages : ∀ a < 64, Wants cacheEnd (leafCode i a) →
      exnum lv1 a = pageNo s₀.slots.cell x₀ (leafCode i a)) :
    Stage s₀ x₀ ptrEnd cacheEnd {c | c < indexCode i ∨ leafCode i 0 ≤ c ∧ c < leafCode i 64} img
      (releaseLeaves cacheEnd s lv1 ptr j n) new := by
  induction n generalizing s ptr j with
  | zero =>
    have all : j = 64 := by omega
    subst all
    exact stage
  | succ n ih =>
    have within : j < 64 := by omega
    have step : leafCode i (j + 1) = leafCode i j + 1 := by simp only [leafCode]; omega
    have base : leafCode i 0 ≤ leafCode i j := by simp only [leafCode]; omega
    have notWants : ¬ Wants ptrEnd (leafCode i j) := by rw [wants_leaf group within]; omega
    by_cases was : ptr < cacheEnd
    · have wants : Wants cacheEnd (leafCode i j) := by rw [wants_leaf group within]; omega
      have freed : Freed ptrEnd cacheEnd (leafCode i j) :=
        ⟨wants, notWants, fun _ => by rw [leafCode_sub]; omega⟩
      simp only [releaseLeaves, was, if_true]
      have given := stage.give ok freed
      rw [← pages j within wants] at given
      refine ih _ _ (given.congr fun c => ?_) (by omega) (by omega)
      simp only [Set.mem_ofPred_eq, Set.mem_insert_iff, step]
      omega
    · have idle : ∀ c ∈ ({leafCode i j} : Set Nat), ¬ Wants ptrEnd c ∧ ¬ Freed ptrEnd cacheEnd c := by
        rintro c rfl
        refine ⟨notWants, fun freed => ?_⟩
        have wanted := freed.1
        rw [wants_leaf group within] at wanted
        omega
      simp only [releaseLeaves, was, if_false]
      refine ih _ _ ((stage.skip idle).congr fun c => ?_) (by omega) (by omega)
      simp only [Set.mem_ofPred_eq, Set.mem_union, Set.mem_singleton_iff, step]
      omega

/-- Past both ends there is nothing left to do. -/
theorem setIndex_idle (done : ptrEnd ≤ ptr) (none : cacheEnd ≤ ptr) :
    setIndex buf ptrEnd cacheEnd s x ptr i n = (s, x) := by
  induction n generalizing i with
  | zero => rfl
  | succ n ih =>
    simp only [setIndex, ge_iff_le, done, if_true, show ¬ ptr < cacheEnd by omega, if_false]
    exact ih

/-- What the inode and the images say about a group of pages that is placed. -/
structure Placed (buf : Bytes) (ptrEnd : Nat) (x : Bytes) (img : Nat → Option Bytes)
    (new : Nat → Nat) (i : Nat) : Prop where
  index : exPnum x i = new (indexCode i)
  table : ∃ y, img (indexCode i) = some y ∧
    ∀ j < 64, Wants ptrEnd (leafCode i j) → exnum y j = new (leafCode i j)
  leaves : ∀ j < 64, Wants ptrEnd (leafCode i j) →
    img (leafCode i j) = some (pageOf buf (pagePtr (leafCode i j)))

theorem Placed.congr {x' : Bytes} {img' : Nat → Option Bytes} {new' : Nat → Nat} {a : Nat}
    (placed : Placed buf ptrEnd x img new a) (index : exPnum x' a = exPnum x a)
    (same : ∀ c, indexCode a ≤ c → c < indexCode (a + 1) → new' c = new c ∧ img' c = img c) :
    Placed buf ptrEnd x' img' new' a := by
  have leaf : ∀ j < 64, new' (leafCode a j) = new (leafCode a j) ∧ img' (leafCode a j) = img (leafCode a j) :=
    fun j hj => same _ (by simp only [indexCode, leafCode]; omega) (by simp only [indexCode, leafCode]; omega)
  have self := same (indexCode a) le_rfl (by simp only [indexCode]; omega)
  obtain ⟨y, atY, table⟩ := placed.table
  refine ⟨by rw [index, placed.index, self.1], ⟨y, by rw [self.2, atY], fun j hj wants => ?_⟩,
    fun j hj wants => ?_⟩
  · rw [table j hj wants, (leaf j hj).1]
  · rw [(leaf j hj).2]
    exact placed.leaves j hj wants

theorem pagePtr_ge {c : Nat} (after : indexCode i ≤ c) : 608 + 8192 * i ≤ pagePtr c := by
  simp only [indexCode] at after
  rw [pagePtr, if_neg (by omega)]
  omega

theorem exnum_take {y : Bytes} (within : j < 64) : exnum (y.take 128) j = exnum y j :=
  Bytes.get16_take (by omega)

/-- A group whose leaf pages have been placed, once its index page is written. -/
theorem Placed.of_leaves {y : Bytes} (index : exPnum x i = new (indexCode i))
    (leaves : ∀ j < 64, Wants ptrEnd (leafCode i j) → exnum y j = new (leafCode i j) ∧
      img (leafCode i j) = some (pageOf buf (pagePtr (leafCode i j)))) :
    Placed buf ptrEnd x (Function.update img (indexCode i) (some (y.take 128))) new i where
  index := index
  table := ⟨_, Function.update_self .., fun j hj wants => by
    rw [exnum_take hj, (leaves j hj wants).1]⟩
  leaves j hj wants := by
    rw [Function.update_of_ne (by simp only [indexCode, leafCode]; omega)]
    exact (leaves j hj wants).2

/-- The loop over the index pages places all groups. -/
theorem setIndex_spec (buf x : Bytes) (ptr i n : Nat) (ok : PagesOk s₀.slots x₀ cacheEnd)
    (stage : Stage s₀ x₀ ptrEnd cacheEnd {c | c < indexCode i} img s new)
    (count : i + n = 4) (atPtr : ptr = 608 + 8192 * i)
    (placed : ∀ a < i, Wants ptrEnd (indexCode a) → Placed buf ptrEnd x img new a)
    (ahead : ∀ a, i ≤ a → a < 4 → exPnum x a = exPnum x₀ a)
    (supplied : Supplied s₀.slots ptrEnd cacheEnd final)
    (onward : Onward (setIndex buf ptrEnd cacheEnd s x ptr i n).1 final) :
    ∃ img' new', Stage s₀ x₀ ptrEnd cacheEnd {c | c < 264} img'
        (setIndex buf ptrEnd cacheEnd s x ptr i n).1 new' ∧
      (∀ c < indexCode i, new' c = new c ∧ img' c = img c) ∧
      (∀ o, o < 120 ∨ 128 ≤ o → (setIndex buf ptrEnd cacheEnd s x ptr i n).2 o = x o) ∧
      ∀ a < 4, Wants ptrEnd (indexCode a) →
        Placed buf ptrEnd (setIndex buf ptrEnd cacheEnd s x ptr i n).2 img' new' a := by
  induction n generalizing s x ptr i img new with
  | zero =>
    have all : i = 4 := by omega
    subst all
    exact ⟨img, new, stage, fun _ _ => ⟨rfl, rfl⟩, fun _ _ => rfl, placed⟩
  | succ n ih =>
    have within : i < 4 := by omega
    have step : indexCode (i + 1) = indexCode i + 65 := by simp only [indexCode]; omega
    have first : leafCode i 0 = indexCode i + 1 := by simp only [indexCode, leafCode]; omega
    have last : leafCode i 64 = indexCode (i + 1) := by simp only [indexCode, leafCode]; omega
    have todo : indexCode i ∉ {c | c < indexCode i} := by simp
    have oldIndex : pageNo s₀.slots.cell x₀ (indexCode i) = exPnum x i := by
      rw [pageNo_index, ahead i le_rfl within]
    have oldLeaf : ∀ a < 64, pageNo s₀.slots.cell x₀ (leafCode i a) =
        exnum (s₀.slots.cell (exPnum x i)) a := fun a ha => by
      rw [pageNo_leaf ha, ahead i le_rfl within]
    have before : ∀ {f g : Nat → Nat} {u w : Nat → Option Bytes} {y : Bytes},
        (∀ c < indexCode i, f c = g c ∧ u c = w c) → (∀ a < i, exPnum y a = exPnum x a) →
        (∀ a < i, Wants ptrEnd (indexCode a) → Placed buf ptrEnd x w g a) →
        ∀ a < i, Wants ptrEnd (indexCode a) → Placed buf ptrEnd y u f a :=
      fun same fields all a ha wants => (all a ha wants).congr (fields a ha) fun c _ upper =>
        same c (by simp only [indexCode] at upper ⊢; omega)
    -- the old index page has not been written since the start
    have loaded : Wants cacheEnd (indexCode i) →
        inodeLoad s (exPnum x i) = s₀.slots.cell (exPnum x i) := by
      intro was
      have lower := ok.lower _ was
      have upper := ok.upper _ was
      have apart := fun c (member : c ∈ {c | c < indexCode i}) wants => stage.resize.new_ne_old ok.plan was member wants
        (by rintro rfl; exact todo member)
      rw [oldIndex] at lower upper apart
      rw [inodeLoad_slot (by omega)]
      exact stage.resize.frame _ apart
    by_cases inside : ptr ≥ ptrEnd
    · have notWants : ¬ Wants ptrEnd (indexCode i) := by rw [wants_index within]; omega
      have placed' : ∀ a < i + 1, Wants ptrEnd (indexCode a) → Placed buf ptrEnd x img new a :=
        fun a ha wants => placed a (by
          by_contra; exact notWants (by rwa [show a = i by omega] at wants)) wants
      by_cases was : ptr < cacheEnd
      · have wants : Wants cacheEnd (indexCode i) := by rw [wants_index within]; omega
        have freed : Freed ptrEnd cacheEnd (indexCode i) :=
          ⟨wants, notWants, fun _ => by rw [indexCode_sub]; omega⟩
        have released := releaseLeaves_spec (inodeLoad s (exPnum x i)) ptr 0 64 ok within (by omega)
          (stage.congr fun c => by simp only [Set.mem_ofPred_eq]; omega) rfl (by omega)
          (fun a ha _ => by rw [loaded wants, oldLeaf a ha])
        have given := released.give ok freed
        rw [oldIndex] at given
        simp only [setIndex, inside, was, if_true] at onward ⊢
        have stage' := given.congr fun (c : Nat) => show c ∈ {c | c < indexCode (i + 1)} ↔ _ by
          simp only [Set.mem_ofPred_eq, Set.mem_insert_iff]; omega
        obtain ⟨img', new', final', frame, bytes, all⟩ := ih _ _ _ stage' (by omega) (by omega) placed'
          (fun a lower => ahead a (by omega)) onward
        exact ⟨img', new', final', fun c hc => frame c (by omega), bytes, all⟩
      · have idle : ∀ c ∈ {c | indexCode i ≤ c ∧ c < 264}, ¬ Wants ptrEnd c ∧ ¬ Freed ptrEnd cacheEnd c := by
          intro c member
          have ge := pagePtr_ge member.1
          refine ⟨fun wants => ?_, fun freed => ?_⟩
          · have := wants.2
            omega
          · have := freed.1.2
            omega
        rw [setIndex_idle inside (by omega)]
        refine ⟨img, new, (stage.skip idle).congr fun c => ?_, fun _ _ => ⟨rfl, rfl⟩, fun _ _ => rfl,
          fun a ha wants => placed a ?_ wants⟩
        · have : indexCode i ≤ 264 := by simp only [indexCode]; omega
          simp only [Set.mem_ofPred_eq, Set.mem_union]
          omega
        · rw [wants_index ha] at wants
          omega
    · have wants : Wants ptrEnd (indexCode i) := by rw [wants_index within]; omega
      have start : ∀ c, c ∈ {c | c < leafCode i 0} ↔ c ∈ insert (indexCode i) {c | c < indexCode i} :=
        fun c => by simp only [Set.mem_ofPred_eq, Set.mem_insert_iff, first]; omega
      by_cases fresh : ptr ≥ cacheEnd
      · have wasNot : ¬ Wants cacheEnd (indexCode i) := by rw [wants_index within]; omega
        simp only [setIndex, inside, fresh, if_true, if_false, newLeaves_eq fresh] at onward ⊢
        have leavesOnward := (onward_steps.dump _ _ _).trans (onward_steps.setIndex.trans onward)
        have popOnward : Onward (freeInodePop s).2 final := onward_steps.setLeaves.trans leavesOnward
        obtain ⟨q, s', run, upper, popped⟩ := stage.pop ok todo wants wasNot supplied popOnward
        simp only [run] at onward leavesOnward ⊢
        have self : exPnum (setExPnum x i q) i = q := exPnum_setExPnum_self (by omega)
        obtain ⟨img', new', stage', frame, leaves⟩ := setLeaves_spec ok within (by omega)
          (popped.congr start) rfl (by omega) (fun a ha => absurd ha (Nat.not_lt_zero a))
          (fun a _ ha had => absurd (had.index_of_leaf within ha) wasNot) supplied leavesOnward
        have atIndex : new' (indexCode i) = q := by
          rw [(frame (indexCode i) (by omega)).1, Function.update_self]
        have dumped := stage'.dump ok (c := indexCode i) (by simp only [Set.mem_ofPred_eq]; omega) wants
          (setLeaves buf ptrEnd cacheEnd s' Bytes.zero ptr 0 64).2
        rw [atIndex, ← self, last] at dumped
        have old : ∀ c < indexCode i, new' c = new c ∧
            Function.update img' (indexCode i)
              (some ((setLeaves buf ptrEnd cacheEnd s' Bytes.zero ptr 0 64).2.take 128)) c = img c :=
          fun c hc => by
            rw [Function.update_of_ne (by omega), (frame c (by omega)).1, (frame c (by omega)).2,
              Function.update_of_ne (by omega)]
            exact ⟨rfl, rfl⟩
        obtain ⟨img'', new'', final', frame', bytes, all⟩ := ih _ _ _ dumped (by omega) (by omega)
          (fun a ha hw => by
            by_cases same : a = i
            · subst same
              exact .of_leaves (by rw [self, atIndex]) leaves
            · exact before old (fun a ha => exPnum_setExPnum_of_ne (by omega)) placed a (by omega) hw)
          (fun a lower upper => by
            rw [exPnum_setExPnum_of_ne (by omega)]; exact ahead a (by omega) upper) onward
        refine ⟨img'', new'', final', fun c hc => ?_, fun o out => ?_, all⟩
        · rw [(frame' c (by omega)).1, (frame' c (by omega)).2]
          exact old c hc
        · rw [bytes o out]
          exact Bytes.put16_apply_of_ne (by omega)
      · have was : Wants cacheEnd (indexCode i) := by rw [wants_index within]; omega
        simp only [setIndex, inside, fresh, if_false, loaded was] at onward ⊢
        have leavesOnward := (onward_steps.dump _ _ _).trans (onward_steps.setIndex.trans onward)
        obtain ⟨img', new', stage', frame, leaves⟩ := setLeaves_spec ok within (by omega)
          ((stage.keep ok todo wants was).congr start) rfl (by omega)
          (fun a ha => absurd ha (Nat.not_lt_zero a))
          (fun a _ ha _ => (oldLeaf a ha).symm) supplied leavesOnward
        have atIndex : new' (indexCode i) = exPnum x i := by
          rw [(frame (indexCode i) (by omega)).1, Function.update_self, oldIndex]
        have dumped := stage'.dump ok (c := indexCode i) (by simp only [Set.mem_ofPred_eq]; omega) wants
          (setLeaves buf ptrEnd cacheEnd s (s₀.slots.cell (exPnum x i)) ptr 0 64).2
        rw [atIndex, last] at dumped
        have old : ∀ c < indexCode i, new' c = new c ∧
            Function.update img' (indexCode i) (some
              ((setLeaves buf ptrEnd cacheEnd s (s₀.slots.cell (exPnum x i)) ptr 0 64).2.take 128)) c =
              img c :=
          fun c hc => by
            rw [Function.update_of_ne (by omega), (frame c (by omega)).1, (frame c (by omega)).2,
              Function.update_of_ne (by omega)]
            exact ⟨rfl, rfl⟩
        obtain ⟨img'', new'', final', frame', bytes, all⟩ := ih _ _ _ dumped (by omega) (by omega)
          (fun a ha hw => by
            by_cases same : a = i
            · subst same
              exact .of_leaves atIndex.symm leaves
            · exact before old (fun _ _ => rfl) placed a (by omega) hw)
          (fun a lower => ahead a (by omega)) onward
        refine ⟨img'', new'', final', fun c hc => ?_, bytes, all⟩
        rw [(frame' c (by omega)).1, (frame' c (by omega)).2]
        exact old c hc

end Sfs
