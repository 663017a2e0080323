import Sfs.ListingSet

namespace Sfs

/-- A directory has entries of 16 bytes, a file of 4. -/
def entrySize (x : Bytes) : Nat := if isdir x ≠ 0 then diEntSize else blknumSize

/-- The end of the listing of the node with inode `x`. -/
def endOf (x : Bytes) : Nat := entrySize x * size x

/-- A node takes up the pages in use and, as place 264, its own inode. -/
def Holds (x : Bytes) (c : Nat) : Prop := c = 264 ∨ Wants (endOf x) c

/-- The inode number at place `c` of node `k`. -/
def placeNo (cell : Nat → Bytes) (k c : Nat) : Nat := if c = 264 then k else pageNo cell (cell k) c

/-- The nodes `L` and their pages take up distinct inodes, which are marked used. -/
structure Marked (L : Set Nat) (p : Pool Bytes) : Prop where
  inj : ∀ k ∈ L, ∀ k' ∈ L, ∀ c c', Holds (p.cell k) c → Holds (p.cell k') c' →
    placeNo p.cell k c = placeNo p.cell k' c' → k = k' ∧ c = c'
  range : ∀ k ∈ L, ∀ c, Holds (p.cell k) c → 2 ≤ placeNo p.cell k c ∧ placeNo p.cell k c < 1024
  used : ∀ k ∈ L, ∀ c, Holds (p.cell k) c → p.free (placeNo p.cell k c) = false
  own : ∀ k ∈ L, ino (p.cell k) = k

/-- The slots 0 and 1 are not free. -/
structure Holding (L : Set Nat) (p : Pool Bytes) : Prop extends Marked L p where
  low : ∀ q, p.free q = true → 2 ≤ q

/-- The sizes are within the limits. -/
structure Owned (L : Set Nat) (p : Pool Bytes) : Prop extends Holding L p where
  fits : ∀ k ∈ L, endOf (p.cell k) ≤ 33376

/-- Node `m` and its pages are the same in `p'`. -/
def Same (p p' : Pool Bytes) (m : Nat) : Prop :=
  ∀ c, Holds (p.cell m) c → p'.cell (placeNo p.cell m c) = p.cell (placeNo p.cell m c)

variable {L L' : Set Nat} {p p' p'' : Pool Bytes} {k m q c n ptrEnd cacheEnd : Nat} {buf x : Bytes}

@[simp] theorem placeNo_self {cell : Nat → Bytes} : placeNo cell k 264 = k := if_pos rfl

theorem placeNo_page {cell : Nat → Bytes} (wants : Wants ptrEnd c) :
    placeNo cell k c = pageNo cell (cell k) c := if_neg (by have := wants.1; omega)

theorem Holds.self (x : Bytes) : Holds x 264 := Or.inl rfl

theorem Holds.page (wants : Wants (endOf x) c) : Holds x c := Or.inr wants

theorem endOf_congr {x' : Bytes} (dir : isdir x' = isdir x) (same : size x' = size x) :
    endOf x' = endOf x := by
  simp only [endOf, entrySize, dir, same]

/-- Writing the first bytes of the inode leaves the page numbers as they are. -/
theorem pageNo_header {cell : Nat → Bytes} (apart : ∀ c, Wants ptrEnd c → pageNo cell (cell k) c ≠ k)
    (same : ∀ o, 112 ≤ o → x o = cell k o) (wants : Wants ptrEnd c) :
    pageNo (Function.update cell k x) x c = pageNo cell (cell k) c := by
  refine pageNo_congr (fun i _ => Bytes.get16_congr (same _ (by omega)) (same _ (by omega)))
    (fun i hi index j hj => ?_) wants
  have atIndex := apart _ index
  rw [pageNo_index] at atIndex
  rw [Function.update_of_ne atIndex]

namespace Same

theorem refl (p : Pool Bytes) (m : Nat) : Same p p m := fun _ _ => rfl

theorem cell_eq (same : Same p p' m) : p'.cell m = p.cell m := by
  simpa using same 264 (.self _)

theorem pageNo_eq (same : Same p p' m) (wants : Wants (endOf (p.cell m)) c) :
    pageNo p'.cell (p'.cell m) c = pageNo p.cell (p.cell m) c := by
  rw [same.cell_eq]
  refine pageNo_congr (fun _ _ => rfl) (fun i hi index j hj => ?_) wants
  have page := same _ (.page index)
  rw [placeNo_page index, pageNo_index] at page
  rw [page]

theorem placeNo_eq (same : Same p p' m) (holds : Holds (p.cell m) c) :
    placeNo p'.cell m c = placeNo p.cell m c := by
  rcases holds with rfl | wants
  · simp
  · rw [placeNo_page wants, placeNo_page wants, same.pageNo_eq wants]

theorem trans (first : Same p p' m) (second : Same p' p'' m) : Same p p'' m := by
  intro c holds
  have holds' : Holds (p'.cell m) c := by rwa [first.cell_eq]
  have step := second c holds'
  rw [first.placeNo_eq holds] at step
  rw [step, first c holds]

theorem content_eq (same : Same p p' m) {o : Nat} (filled : Filled (endOf (p.cell m)) o) :
    content p'.cell (p'.cell m) o = content p.cell (p.cell m) o := by
  rw [same.cell_eq]
  refine content_congr (fun _ _ => rfl) (fun c wants => ?_) filled
  have page := same c (.page wants)
  rwa [placeNo_page wants] at page

end Same

namespace Marked

theorem node_range (marked : Marked L p) (live : k ∈ L) : 2 ≤ k ∧ k < 1024 := by
  simpa using marked.range k live 264 (.self _)

theorem node_used (marked : Marked L p) (live : k ∈ L) : p.free k = false := by
  simpa using marked.used k live 264 (.self _)

theorem page_ne_node (marked : Marked L p) (live : k ∈ L) (live' : m ∈ L) (wants : Wants (endOf (p.cell k)) c) :
    pageNo p.cell (p.cell k) c ≠ m := by
  intro same
  have equal := marked.inj k live m live' c 264 (.page wants) (.self _)
    (by rw [placeNo_page wants, placeNo_self, same])
  have := wants.1
  omega

theorem pagesOk (marked : Marked L p) (live : k ∈ L) : PagesOk p (p.cell k) (endOf (p.cell k)) where
  inj c c' wants wants' same := by
    refine (marked.inj k live k live c c' (.page wants) (.page wants') ?_).2
    rw [placeNo_page wants, placeNo_page wants', same]
  lower c wants := by
    have range := marked.range k live c (.page wants)
    rw [placeNo_page wants] at range
    exact range.1
  upper c wants := by
    have range := marked.range k live c (.page wants)
    rw [placeNo_page wants] at range
    exact range.2
  used c wants := by
    have used := marked.used k live c (.page wants)
    rwa [placeNo_page wants] at used

/-- After a change every place in use is one that was in use or one that was
free. -/
theorem step (marked : Marked L p)
    (places : ∀ m ∈ L', ∀ c, Holds (p'.cell m) c →
      (m ∈ L ∧ Holds (p.cell m) c ∧ placeNo p'.cell m c = placeNo p.cell m c) ∨
        (p.free (placeNo p'.cell m c) = true ∧ 2 ≤ placeNo p'.cell m c ∧ placeNo p'.cell m c < 1024))
    (inj : ∀ m ∈ L', ∀ m' ∈ L', ∀ c c', Holds (p'.cell m) c → Holds (p'.cell m') c' →
      p.free (placeNo p'.cell m c) = true → placeNo p'.cell m c = placeNo p'.cell m' c' →
      m = m' ∧ c = c')
    (used : ∀ m ∈ L', ∀ c, Holds (p'.cell m) c → p'.free (placeNo p'.cell m c) = false)
    (own : ∀ m ∈ L', ino (p'.cell m) = m) : Marked L' p' where
  inj m hm m' hm' c c' holds holds' same := by
    rcases places m hm c holds with ⟨old, oldHolds, number⟩ | ⟨free, _⟩
    · rcases places m' hm' c' holds' with ⟨old', oldHolds', number'⟩ | ⟨free', _⟩
      · exact marked.inj m old m' old' c c' oldHolds oldHolds' (by rw [← number, ← number', same])
      · have equal := inj m' hm' m hm c' c holds' holds free' same.symm
        exact ⟨equal.1.symm, equal.2.symm⟩
    · exact inj m hm m' hm' c c' holds holds' free same
  range m hm c holds := by
    rcases places m hm c holds with ⟨old, oldHolds, number⟩ | ⟨_, range⟩
    · rw [number]
      exact marked.range m old c oldHolds
    · exact range
  used := used
  own := own

/-- Every place in use is one that was in use. -/
theorem old (marked : Marked L p)
    (places : ∀ m ∈ L', ∀ c, Holds (p'.cell m) c →
      m ∈ L ∧ Holds (p.cell m) c ∧ placeNo p'.cell m c = placeNo p.cell m c)
    (used : ∀ m ∈ L', ∀ c, Holds (p'.cell m) c → p'.free (placeNo p'.cell m c) = false)
    (own : ∀ m ∈ L', ino (p'.cell m) = m) : Marked L' p' := by
  refine marked.step (fun m hm c holds => Or.inl (places m hm c holds)) ?_ used own
  intro m hm m' hm' c c' holds holds' isFree _
  obtain ⟨inL, holds₀, number⟩ := places m hm c holds
  rw [number, marked.used m inL c holds₀] at isFree
  exact absurd isFree Bool.false_ne_true

/-- A node is released. -/
theorem give (marked : Marked L p) (live : k ∈ L) : Marked (L \ {k}) (p.give k) := by
  refine marked.old (fun m hm c holds => ⟨hm.1, holds, rfl⟩) (fun m hm c holds => ?_) fun m hm => marked.own m hm.1
  rw [Bool.eq_false_iff]
  intro isFree
  rcases (Pool.give_free_iff p).mp isFree with was | here
  · rw [Pool.give_cell, marked.used m hm.1 c holds] at was
    exact Bool.false_ne_true was
  · have equal := marked.inj m hm.1 k live c 264 holds (.self _) (by simpa using here)
    exact hm.2 equal.1

/-- The link count and the size in bytes of a node are set. -/
theorem header (marked : Marked L p) (live : k ∈ L) (same : ∀ o, o < 6 ∨ 12 ≤ o → x o = p.cell k o) :
    Marked L (p.write k x) ∧ (∀ m ∈ L, m ≠ k → Same p (p.write k x) m) ∧
      endOf x = endOf (p.cell k) ∧
      ∀ o, Filled (endOf x) o → content (p.write k x).cell x o = content p.cell (p.cell k) o := by
  have self : (p.write k x).cell k = x := Pool.write_cell_self ..
  have others : ∀ m ∈ L, m ≠ k → Same p (p.write k x) m := fun m hm ne c holds =>
    Pool.write_cell_of_ne _ _ fun equal =>
      ne (marked.inj m hm k live c 264 holds (.self _) (by simpa using equal)).1
  have ends : endOf x = endOf (p.cell k) :=
    endOf_congr (same 12 (by omega)) (Bytes.get16_congr (same 4 (by omega)) (same 5 (by omega)))
  have apart : ∀ c, Wants (endOf (p.cell k)) c → pageNo p.cell (p.cell k) c ≠ k := fun c wants =>
    marked.page_ne_node live live wants
  have number : ∀ c, Holds x c → placeNo (p.write k x).cell k c = placeNo p.cell k c := by
    rintro c (rfl | wants)
    · simp
    · rw [placeNo_page wants, placeNo_page wants, self]
      rw [ends] at wants
      exact pageNo_header apart (fun o _ => same o (by omega)) wants
  have old : ∀ m ∈ L, ∀ c, Holds ((p.write k x).cell m) c →
      Holds (p.cell m) c ∧ placeNo (p.write k x).cell m c = placeNo p.cell m c := by
    intro m hm c holds
    by_cases here : m = k
    · subst here
      rw [self] at holds
      refine ⟨?_, number c holds⟩
      rwa [Holds, ends] at holds
    · rw [(others m hm here).cell_eq] at holds
      exact ⟨holds, (others m hm here).placeNo_eq holds⟩
  refine ⟨marked.old (fun m hm c holds => ⟨hm, old m hm c holds⟩) (fun m hm c holds => ?_) fun m hm => ?_,
    others, ends, fun o filled => ?_⟩
  · obtain ⟨holds₀, number₀⟩ := old m hm c holds
    rw [number₀]
    exact marked.used m hm c holds₀
  · by_cases here : m = k
    · subst here
      rw [self, ← marked.own m hm]
      exact Bytes.get16_congr (same 0 (by omega)) (same 1 (by omega))
    · rw [(others m hm here).cell_eq, marked.own m hm]
  · rw [ends] at filled
    exact content_congr (fun o _ => same _ (by omega))
      (fun c wants => Pool.write_cell_of_ne _ _ (apart c wants)) filled

end Marked

namespace Holding

theorem step (owned : Holding L p)
    (places : ∀ m ∈ L', ∀ c, Holds (p'.cell m) c →
      (m ∈ L ∧ Holds (p.cell m) c ∧ placeNo p'.cell m c = placeNo p.cell m c) ∨
        (p.free (placeNo p'.cell m c) = true ∧ placeNo p'.cell m c < 1024))
    (inj : ∀ m ∈ L', ∀ m' ∈ L', ∀ c c', Holds (p'.cell m) c → Holds (p'.cell m') c' →
      p.free (placeNo p'.cell m c) = true → placeNo p'.cell m c = placeNo p'.cell m' c' →
      m = m' ∧ c = c')
    (used : ∀ m ∈ L', ∀ c, Holds (p'.cell m) c → p'.free (placeNo p'.cell m c) = false)
    (own : ∀ m ∈ L', ino (p'.cell m) = m)
    (low : ∀ q, p'.free q = true → 2 ≤ q) : Holding L' p' where
  toMarked := owned.toMarked.step
    (fun m hm c holds => (places m hm c holds).imp_right fun new => ⟨new.1, owned.low _ new.1, new.2⟩) inj used own
  low := low

end Holding

namespace Owned

theorem mono (owned : Owned L p) (sub : L' ⊆ L) : Owned L' p where
  inj k hk k' hk' := owned.inj k (sub hk) k' (sub hk')
  range k hk := owned.range k (sub hk)
  used k hk := owned.used k (sub hk)
  own k hk := owned.own k (sub hk)
  fits k hk := owned.fits k (sub hk)
  low := owned.low

/-- The sizes stay within the limits as well. -/
theorem step (owned : Owned L p)
    (places : ∀ m ∈ L', ∀ c, Holds (p'.cell m) c →
      (m ∈ L ∧ Holds (p.cell m) c ∧ placeNo p'.cell m c = placeNo p.cell m c) ∨
        (p.free (placeNo p'.cell m c) = true ∧ placeNo p'.cell m c < 1024))
    (inj : ∀ m ∈ L', ∀ m' ∈ L', ∀ c c', Holds (p'.cell m) c → Holds (p'.cell m') c' →
      p.free (placeNo p'.cell m c) = true → placeNo p'.cell m c = placeNo p'.cell m' c' →
      m = m' ∧ c = c')
    (used : ∀ m ∈ L', ∀ c, Holds (p'.cell m) c → p'.free (placeNo p'.cell m c) = false)
    (own : ∀ m ∈ L', ino (p'.cell m) = m) (fits : ∀ m ∈ L', endOf (p'.cell m) ≤ 33376)
    (low : ∀ q, p'.free q = true → 2 ≤ q) : Owned L' p' where
  toHolding := owned.toHolding.step places inj used own low
  fits := fits

/-- A new node without pages. -/
theorem insert (owned : Owned L p) (free : p.free q = true) (upper : q < 1024)
    (own : ino x = q) (small : endOf x ≤ 96) :
    Owned (insert q L) ((p.take q).write q x) ∧ ∀ m ∈ L, Same p ((p.take q).write q x) m := by
  have outside : ∀ m ∈ L, ∀ c, Holds (p.cell m) c → placeNo p.cell m c ≠ q := by
    intro m hm c holds same
    have used := owned.used m hm c holds
    rw [same, free] at used
    exact Bool.false_ne_true used.symm
  have same : ∀ m ∈ L, Same p ((p.take q).write q x) m := fun m hm c holds =>
    Pool.write_cell_of_ne _ _ (outside m hm c holds)
  have self : ((p.take q).write q x).cell q = x := Pool.write_cell_self ..
  have notWants : ∀ c, ¬ Wants (endOf x) c := by
    intro c wants
    have := wants.2
    simp only [pagePtr] at this
    split at this <;> omega
  refine ⟨owned.step ?_ ?_ ?_ ?_ ?_ ?_, same⟩
  · rintro m (rfl | hm) c holds
    · rw [self] at holds
      rcases holds with rfl | wants
      · exact Or.inr (by simpa using ⟨free, upper⟩)
      · exact absurd wants (notWants c)
    · have holds' : Holds (p.cell m) c := by rwa [(same m hm).cell_eq] at holds
      exact Or.inl ⟨hm, holds', (same m hm).placeNo_eq holds'⟩
  · have new : ∀ m ∈ Insert.insert q L, ∀ c, Holds (((p.take q).write q x).cell m) c →
        p.free (placeNo ((p.take q).write q x).cell m c) = true → m = q ∧ c = 264 := by
      rintro m (rfl | hm) c holds isFree
      · rw [self] at holds
        exact ⟨rfl, holds.resolve_right (notWants c)⟩
      · have holds' : Holds (p.cell m) c := by rwa [(same m hm).cell_eq] at holds
        rw [(same m hm).placeNo_eq holds', owned.used m hm c holds'] at isFree
        exact absurd isFree Bool.false_ne_true
    intro m hm m' hm' c c' holds holds' isFree equal
    obtain ⟨rfl, rfl⟩ := new m hm c holds isFree
    obtain ⟨rfl, rfl⟩ := new m' hm' c' holds' (equal ▸ isFree)
    exact ⟨rfl, rfl⟩
  · rintro m (rfl | hm) c holds
    · rw [self] at holds
      rcases holds with rfl | wants
      · simp [Pool.take]
      · exact absurd wants (notWants c)
    · have holds' : Holds (p.cell m) c := by rwa [(same m hm).cell_eq] at holds
      rw [(same m hm).placeNo_eq holds', Bool.eq_false_iff]
      intro isFree
      have was := ((Pool.take_free_iff p).mp isFree).1
      rw [owned.used m hm c holds'] at was
      exact Bool.false_ne_true was
  · rintro m (rfl | hm)
    · rw [self, own]
    · rw [(same m hm).cell_eq, owned.own m hm]
  · rintro m (rfl | hm)
    · rw [self]
      omega
    · rw [(same m hm).cell_eq]
      exact owned.fits m hm
  · intro r isFree
    exact owned.low r ((Pool.take_free_iff p).mp isFree).1

/-- A node is released. -/
theorem give (owned : Owned L p) (live : k ∈ L) : Owned (L \ {k}) (p.give k) where
  toMarked := owned.toMarked.give live
  low q isFree := by
    rcases (Pool.give_free_iff p).mp isFree with was | rfl
    · exact owned.low q was
    · exact (owned.node_range live).1
  fits m hm := owned.fits m hm.1

/-- The link count and the size in bytes of a node are set. -/
theorem header (owned : Owned L p) (live : k ∈ L) (same : ∀ o, o < 6 ∨ 12 ≤ o → x o = p.cell k o) :
    Owned L (p.write k x) ∧ (∀ m ∈ L, m ≠ k → Same p (p.write k x) m) ∧
      endOf x = endOf (p.cell k) ∧
      ∀ o, Filled (endOf x) o → content (p.write k x).cell x o = content p.cell (p.cell k) o := by
  obtain ⟨marked, others, ends, bytes⟩ := owned.toMarked.header live same
  refine ⟨⟨⟨marked, owned.low⟩, fun m hm => ?_⟩, others, ends, bytes⟩
  by_cases here : m = k
  · subst here
    rw [Pool.write_cell_self, ends]
    exact owned.fits m hm
  · rw [(others m hm here).cell_eq]
    exact owned.fits m hm

end Owned

namespace Resized

variable (resized : Resized p p' k ptrEnd n buf cacheEnd)

include resized in
theorem same (owned : Marked L p) (live : k ∈ L) (endIs : endOf (p.cell k) = cacheEnd) (live' : m ∈ L)
    (ne : m ≠ k) : Same p p' m := by
  intro c holds
  apply resized.frame
  · intro equal
    exact ne (owned.inj m live' k live c 264 holds (.self _) (by simpa using equal)).1
  · intro c' wants equal
    by_cases was : Wants cacheEnd c'
    · rw [resized.kept c' wants was] at equal
      rw [← endIs] at was
      exact ne (owned.inj k live m live' c' c (.page was) holds (by rw [placeNo_page was, equal])).1.symm
    · have free := (resized.fresh c' wants was).1
      rw [equal, owned.used m live' c holds] at free
      exact Bool.false_ne_true free

include resized in
theorem isdir_eq : isdir (p'.cell k) = isdir (p.cell k) := resized.head 12 (by omega) (by omega)

include resized in
theorem ino_eq : ino (p'.cell k) = ino (p.cell k) :=
  Bytes.get16_congr (resized.head 0 (by omega) (by omega)) (resized.head 1 (by omega) (by omega))

include resized in
/-- The link count and the size in bytes may be set afterwards. -/
theorem header (apart : ∀ c, Wants ptrEnd c → pageNo p'.cell (p'.cell k) c ≠ k)
    (same : ∀ o, o < 6 ∨ 12 ≤ o → x o = p'.cell k o) :
    Resized p (p'.write k x) k ptrEnd n buf cacheEnd := by
  have self : (p'.write k x).cell k = x := Pool.write_cell_self ..
  have number : ∀ c, Wants ptrEnd c →
      pageNo (p'.write k x).cell ((p'.write k x).cell k) c = pageNo p'.cell (p'.cell k) c := fun c wants => by
    rw [self]
    exact pageNo_header apart (fun o _ => same o (by omega)) wants
  constructor
  · intro o within fixed
    rw [self, same o (by omega), resized.head o within fixed]
  · rw [self, ← resized.size]
    exact Bytes.get16_congr (same 4 (by omega)) (same 5 (by omega))
  · intro o filled
    rw [← resized.content o filled, self]
    exact content_congr (fun o _ => same _ (by omega))
      (fun c wants => Pool.write_cell_of_ne _ _ (apart c wants)) filled
  · intro c wants was
    rw [number c wants, resized.kept c wants was]
  · intro c wants wasNot
    rw [number c wants]
    exact resized.fresh c wants wasNot
  · intro c c' wants wants' equal
    rw [number c wants, number c' wants'] at equal
    exact resized.inj c c' wants wants' equal
  · intro q
    rw [Pool.write_free, resized.free]
    refine or_congr_left (and_congr_right fun _ => forall₂_congr fun c wants => ?_)
    rw [number c wants]
  · intro q ne avoid
    rw [Pool.write_cell_of_ne _ _ ne]
    exact resized.frame q ne fun c wants => number c wants ▸ avoid c wants

include resized in
/-- A place of a live node is an old one, or a page that was acquired. -/
theorem place (owned : Marked L p) (live : k ∈ L) (cacheIs : endOf (p.cell k) = cacheEnd)
    (endIs : endOf (p'.cell k) = ptrEnd) (live' : m ∈ L) (holds : Holds (p'.cell m) c) :
    (Holds (p.cell m) c ∧ placeNo p'.cell m c = placeNo p.cell m c) ∨
      (m = k ∧ Wants ptrEnd c ∧ p.free (placeNo p'.cell m c) = true ∧ placeNo p'.cell m c < 1024) := by
  by_cases here : m = k
  · subst here
    rcases holds with rfl | wants
    · exact Or.inl ⟨.self _, by simp⟩
    · rw [placeNo_page wants]
      rw [endIs] at wants
      by_cases was : Wants cacheEnd c
      · rw [placeNo_page was, resized.kept c wants was]
        rw [← cacheIs] at was
        exact Or.inl ⟨.page was, rfl⟩
      · exact Or.inr ⟨rfl, wants, resized.fresh c wants was⟩
  · have same := resized.same owned live cacheIs live' here
    rw [same.cell_eq] at holds
    exact Or.inl ⟨holds, same.placeNo_eq holds⟩

include resized in
theorem marked (marked : Marked L p) (live : k ∈ L) (cacheIs : endOf (p.cell k) = cacheEnd)
    (endIs : endOf (p'.cell k) = ptrEnd)
    (lower : ∀ c, Wants ptrEnd c → ¬ Wants cacheEnd c → 2 ≤ pageNo p'.cell (p'.cell k) c) : Marked L p' := by
  have place := fun m hm c => resized.place marked live cacheIs endIs (m := m) (c := c) hm
  refine marked.step (fun m hm c holds => ?_) ?_ ?_ ?_
  · rcases place m hm c holds with old | ⟨rfl, wants, free, upper⟩
    · exact Or.inl ⟨hm, old⟩
    · refine Or.inr ⟨free, ?_, upper⟩
      rw [placeNo_page wants] at free ⊢
      refine lower c wants fun was => ?_
      rw [resized.kept c wants was] at free
      rw [← cacheIs] at was
      rw [(marked.pagesOk hm).used c was] at free
      exact Bool.false_ne_true free
  · intro m hm m' hm' c c' holds holds' isFree equal
    rcases place m hm c holds with ⟨old, number⟩ | ⟨rfl, wants, _⟩
    · rw [number, marked.used m hm c old] at isFree
      exact absurd isFree Bool.false_ne_true
    · rcases place m' hm' c' holds' with ⟨old', number'⟩ | ⟨rfl, wants', _⟩
      · rw [equal, number', marked.used m' hm' c' old'] at isFree
        exact absurd isFree Bool.false_ne_true
      · rw [placeNo_page wants, placeNo_page wants'] at equal
        exact ⟨rfl, resized.inj c c' wants wants' equal⟩
  · intro m hm c holds
    rw [Bool.eq_false_iff]
    intro isFree
    rcases (resized.free _).mp isFree with ⟨was, avoid⟩ | ⟨c', freed, equal⟩
    · rcases place m hm c holds with ⟨old, number⟩ | ⟨rfl, wants, _⟩
      · rw [number, marked.used m hm c old] at was
        exact Bool.false_ne_true was
      · exact avoid c wants (by rw [placeNo_page wants])
    · have had := freed.1
      have not := freed.2.1
      rw [← placeNo_page had] at equal
      rw [← cacheIs] at had
      rcases place m hm c holds with ⟨old, number⟩ | ⟨rfl, wants, free, _⟩
      · rw [number] at equal
        obtain ⟨rfl, rfl⟩ := marked.inj k live m hm c' c (.page had) old equal
        rcases holds with rfl | wants
        · have := had.1
          omega
        · rw [endIs] at wants
          exact not wants
      · rw [← equal, marked.used m live c' (.page had)] at free
        exact Bool.false_ne_true free
  · intro m hm
    by_cases here : m = k
    · subst here
      rw [resized.ino_eq, marked.own m hm]
    · rw [(resized.same marked live cacheIs hm here).cell_eq, marked.own m hm]

include resized in
theorem holding (owned : Holding L p) (live : k ∈ L) (cacheIs : endOf (p.cell k) = cacheEnd)
    (endIs : endOf (p'.cell k) = ptrEnd) : Holding L p' := by
  refine ⟨resized.marked owned.toMarked live cacheIs endIs fun c wants wasNot =>
    owned.low _ (resized.fresh c wants wasNot).1, fun q isFree => ?_⟩
  rcases (resized.free q).mp isFree with ⟨was, _⟩ | ⟨c, freed, rfl⟩
  · exact owned.low q was
  · have had := freed.1
    rw [← cacheIs] at had
    exact (owned.pagesOk live).lower c had

include resized in
theorem owned (owned : Owned L p) (live : k ∈ L) (cacheIs : endOf (p.cell k) = cacheEnd)
    (endIs : endOf (p'.cell k) = ptrEnd) (fits : ptrEnd ≤ 33376) : Owned L p' := by
  refine ⟨resized.holding owned.toHolding live cacheIs endIs, fun m hm => ?_⟩
  by_cases here : m = k
  · rw [here, endIs]
    exact fits
  · rw [(resized.same owned.toMarked live cacheIs hm here).cell_eq]
    exact owned.fits m hm

end Resized

end Sfs
