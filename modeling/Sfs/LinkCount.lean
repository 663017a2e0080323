import Sfs.Header
import Sfs.Lib.Run
import Sfs.Mount

namespace Sfs

/-- The calls that change the entries of a directory. -/
inductive DirOp
  | append (newItem : Bytes)
  | remove (filename : Bytes)

/-- The number of entries from `i` on, `n` of them, that a removal takes for `filename`. -/
def hits (d filename : Bytes) (i n : Nat) : Nat :=
  (List.range' i n).countP fun j => Bytes.strncmpEq d (diEntSize * j) filename 0 13

namespace DirOp

def run (k : Nat) (s : State) : DirOp → State
  | append newItem => dnodeAppend s k newItem
  | remove filename => dnodeRemove s k filename

/-- There is room for the new entry; at most one entry has the name. -/
def Single (k : Nat) (s : State) : DirOp → Prop
  | append _ => (dnodeListing s k).1 + 1 < DENTRY_MAX_SIZE
  | remove filename => hits (dnodeListing s k).2.d filename 0 (dnodeListing s k).1 ≤ 1

end DirOp

/-- The link count, the size and the number of entries listed agree. -/
def LinksAgree (s : State) (k : Nat) : Prop :=
  nlink (inodeLoad s k) = size (inodeLoad s k) ∧ (dnodeListing s k).1 = size (inodeLoad s k)

/-- A directory between two calls. -/
structure Tallied (s : State) (k : Nat) : Prop where
  own : ino (inodeLoad s k) = k
  links : nlink (inodeLoad s k) = size (inodeLoad s k)
  fits : size (inodeLoad s k) < DENTRY_MAX_SIZE

variable {s s' : State} {k m n i h rows : Nat} {d filename item : Bytes} {op : DirOp} {ops : List DirOp}

theorem fault_disk (s : State) (bad : Bool) : (s.fault bad).disk = s.disk := rfl

theorem fault_d (s : State) (bad : Bool) : (s.fault bad).d = s.d := rfl

theorem setD_disk (s : State) (d : Bytes) : ({ s with d } : State).disk = s.disk := rfl

theorem setD_d (s : State) (d : Bytes) : ({ s with d } : State).d = d := rfl

theorem errnoPush_disk (s : State) (err : Int) : (errnoPush s err).disk = s.disk := rfl

theorem errnoPush_d (s : State) (err : Int) : (errnoPush s err).d = s.d := rfl

theorem ushort_succ (small : n + 1 < 65536) : ushort ((n : Int) + 1) = n + 1 := by
  rw [← Nat.cast_succ]
  exact ushort_nat small

theorem ushort_pred (positive : 1 ≤ n) (small : n < 65536) : ushort ((n : Int) - 1) = n - 1 := by
  have cast : (n : Int) - 1 = (n - 1 : Nat) := by omega
  rw [cast]
  exact ushort_nat (by omega)

theorem ushort_small {v : Int} (lower : 0 ≤ v) (upper : v < 65536) : ushort v = v.toNat := by
  simp only [ushort]
  omega

/-- Setting the listing of a directory touches neither its number nor its link count. -/
theorem dnodeListingSet_links (newsize : Int) (within : k < 65536) (own : ino (inodeLoad s k) = k)
    (positive : 0 ≤ newsize) :
    ino (inodeLoad (dnodeListingSet s k newsize) k) = k ∧
      nlink (inodeLoad (dnodeListingSet s k newsize) k) = nlink (inodeLoad s k) ∧
      size (inodeLoad (dnodeListingSet s k newsize) k) = min newsize.toNat (DENTRY_MAX_SIZE - 1) ∧
      (dnodeListingSet s k newsize).d = s.d := by
  generalize finalIs : dnodeListingSet s k newsize = s'
  have last : (DENTRY_MAX_SIZE : Int) - 1 = (2085 : Nat) := rfl
  have limit : DENTRY_MAX_SIZE = 2086 := rfl
  rw [dnodeListingSet, last] at finalIs
  split at finalIs
  next full =>
    have pushed : inodeLoad (errnoPush s (-EFBIG)) k = inodeLoad s k := inodeLoad_congr (errnoPush_disk ..) k
    have buffer := errnoPush_d s (-EFBIG)
    generalize errnoPush s (-EFBIG) = t at *
    rw [← pushed] at own ⊢
    refine ⟨?_, ?_, ?_, ?_⟩ <;> rw [← finalIs]
    · exact listingSet_ino within own
    · exact listingSet_nlink within own
    · rw [listingSet_size within own, ushort_nat (by omega)]
      omega
    · rw [aside_steps.listingSet.d, buffer]
  next room =>
    refine ⟨?_, ?_, ?_, ?_⟩ <;> rw [← finalIs]
    · exact listingSet_ino within own
    · exact listingSet_nlink within own
    · rw [listingSet_size within own, ushort_small (by omega) (by omega)]
      omega
    · exact aside_steps.listingSet.d

/-- The link count is written last. -/
theorem setNlink_links (within : k < 65536) (small : m < 65536) :
    ino (inodeLoad (inodeDump s k (setNlink (inodeLoad s k) m)) k) = ino (inodeLoad s k) ∧
      nlink (inodeLoad (inodeDump s k (setNlink (inodeLoad s k) m)) k) = m ∧
      size (inodeLoad (inodeDump s k (setNlink (inodeLoad s k) m)) k) = size (inodeLoad s k) := by
  rw [inodeLoad_inodeDump within]
  refine ⟨?_, ?_, ?_⟩
  · rw [ino, Bytes.get16_take (by omega), setNlink, Bytes.get16_put16_of_ne (by omega)]
    rfl
  · rw [nlink, Bytes.get16_take (by omega), setNlink, Bytes.get16_put16_self, Nat.mod_eq_of_lt small]
  · rw [size, Bytes.get16_take (by omega), setNlink, Bytes.get16_put16_of_ne (by omega), size]

theorem dnodeAppend_links (item : Bytes) (tallied : Tallied s k) (within : k < 65536) :
    ino (inodeLoad (dnodeAppend s k item) k) = k ∧
      nlink (inodeLoad (dnodeAppend s k item) k) = size (inodeLoad s k) + 1 ∧
      size (inodeLoad (dnodeAppend s k item) k) = min (size (inodeLoad s k) + 1) (DENTRY_MAX_SIZE - 1) := by
  obtain ⟨own, links, fits⟩ := tallied
  simp only [DENTRY_MAX_SIZE] at fits
  have short : ushort k = k := ushort_nat within
  generalize finalIs : dnodeAppend s k item = s'
  rw [dnodeAppend, short] at finalIs
  have listed := dnodeListing_rows s k
  have disk := dnodeListing_disk s k
  generalize dnodeListing s k = l at *
  simp only [listed] at finalIs
  have faulted := fault_disk l.2 (decide (size (inodeLoad s k) ≥ DENTRY_MAX_SIZE))
  generalize l.2.fault (decide (size (inodeLoad s k) ≥ DENTRY_MAX_SIZE)) = r at *
  have started := setD_disk r (r.d.copy (diEntSize * size (inodeLoad s k)) item 0 diEntSize)
  generalize ({ r with d := r.d.copy (diEntSize * size (inodeLoad s k)) item 0 diEntSize } : State) = t at *
  have loaded : inodeLoad t k = inodeLoad s k := inodeLoad_congr (started.trans (faulted.trans disk)) k
  obtain ⟨own', links', rows, _⟩ := dnodeListingSet_links (s := t) ((size (inodeLoad s k) : Int) + 1) within
    (by rw [loaded, own]) (by omega)
  generalize dnodeListingSet t k ((size (inodeLoad s k) : Int) + 1) = u at *
  have count : ushort ((nlink (inodeLoad u k) : Int) + 1) = size (inodeLoad s k) + 1 := by
    rw [links', loaded, links, ushort_succ (by omega)]
  rw [count] at finalIs
  obtain ⟨own'', nlink'', size''⟩ := setNlink_links (s := u) (m := size (inodeLoad s k) + 1) within (by omega)
  rw [finalIs] at own'' nlink'' size''
  refine ⟨own''.trans own', nlink'', size''.trans ?_⟩
  rw [rows]
  congr 1

theorem hits_succ : hits d filename i (n + 1) =
    (if Bytes.strncmpEq d (diEntSize * i) filename 0 13 then 1 else 0) + hits d filename (i + 1) n := by
  rw [hits, List.range'_succ, List.countP_cons, Nat.add_comm, hits]

/-- Every hit takes one off the link count, but the size is set to the same number each time. -/
theorem dnodeRemoveLoop_links (filename : Bytes) (rows : Nat) (within : k < 65536) (own : ino (inodeLoad s k) = k)
    (positive : 1 ≤ rows) (fits : rows < DENTRY_MAX_SIZE) (enough : hits d filename i n ≤ nlink (inodeLoad s k))
    (same : ∀ o, diEntSize * i ≤ o → s.d o = d o) :
    ino (inodeLoad (dnodeRemoveLoop s k filename rows i n) k) = k ∧
      nlink (inodeLoad (dnodeRemoveLoop s k filename rows i n) k) + hits d filename i n = nlink (inodeLoad s k) ∧
      size (inodeLoad (dnodeRemoveLoop s k filename rows i n) k) =
        if hits d filename i n = 0 then size (inodeLoad s k) else rows - 1 := by
  have short : ushort k = k := ushort_nat within
  induction n generalizing s i with
  | zero =>
    have none : hits d filename i 0 = 0 := rfl
    rw [dnodeRemoveLoop, none, if_pos rfl]
    exact ⟨own, Nat.add_zero _, rfl⟩
  | succ n ih =>
    have compare : Bytes.strncmpEq s.d (diEntSize * i) filename 0 13 = Bytes.strncmpEq d (diEntSize * i) filename 0 13 := by
      rw [Bool.eq_iff_iff, Bytes.strncmpEq_iff, Bytes.strncmpEq_iff,
        Bytes.chars_congr fun j _ => same (diEntSize * i + j) (by omega)]
    have faulted : inodeLoad (s.fault (decide (i ≥ DENTRY_MAX_SIZE))) k = inodeLoad s k := inodeLoad_congr (fault_disk ..) k
    have buffer := fault_d s (decide (i ≥ DENTRY_MAX_SIZE))
    rw [hits_succ] at enough ⊢
    rw [dnodeRemoveLoop]
    generalize s.fault (decide (i ≥ DENTRY_MAX_SIZE)) = t at *
    rw [buffer, compare]
    cases found : Bytes.strncmpEq d (diEntSize * i) filename 0 13 with
    | false =>
      simp only [found, Bool.false_eq_true, if_false, Nat.zero_add] at enough ⊢
      rw [← faulted]
      refine ih (by rw [faulted, own]) (by rw [faulted]; exact enough) fun o past => ?_
      rw [buffer]
      exact same o (by simp only [diEntSize] at past ⊢; omega)
    | true =>
      simp only [found, if_true] at enough ⊢
      simp only [DENTRY_MAX_SIZE] at fits
      have disk := setD_disk t (s.d.copy (diEntSize * i) (diEnt s.d (rows - 1)) 0 diEntSize)
      have copied := setD_d t (s.d.copy (diEntSize * i) (diEnt s.d (rows - 1)) 0 diEntSize)
      generalize ({ t with d := s.d.copy (diEntSize * i) (diEnt s.d (rows - 1)) 0 diEntSize } : State) = u at *
      have loaded : inodeLoad u k = inodeLoad s k := (inodeLoad_congr disk k).trans faulted
      obtain ⟨own', links', size', d'⟩ := dnodeListingSet_links (s := u) ((rows : Int) - 1) within
        (by rw [loaded, own]) (by omega)
      rw [short]
      generalize dnodeListingSet u k ((rows : Int) - 1) = v at *
      have small : nlink (inodeLoad s k) < 65536 := Bytes.get16_lt _ _
      have count : ushort ((nlink (inodeLoad v k) : Int) - 1) = nlink (inodeLoad s k) - 1 := by
        rw [links', loaded, ushort_pred (by omega) small]
      rw [count]
      obtain ⟨own'', nlink'', size''⟩ := setNlink_links (s := v) (m := nlink (inodeLoad s k) - 1) within (by omega)
      have d'' : (inodeDump v k (setNlink (inodeLoad v k) (nlink (inodeLoad s k) - 1))).d = v.d :=
        (aside_steps.dump _ _ _).d
      generalize inodeDump v k (setNlink (inodeLoad v k) (nlink (inodeLoad s k) - 1)) = w at *
      obtain ⟨last, taken, rest⟩ := ih (s := w) (i := i + 1) (own''.trans own') (by rw [nlink'']; omega) fun o past => by
        rw [d'', d', copied, Bytes.copy_apply_of_not_mem (by simp only [diEntSize] at past ⊢; omega)]
        exact same o (by simp only [diEntSize] at past ⊢; omega)
      refine ⟨last, by omega, ?_⟩
      have last : min ((rows : Int) - 1).toNat (DENTRY_MAX_SIZE - 1) = rows - 1 := by
        simp only [DENTRY_MAX_SIZE]
        omega
      rw [rest, size'', size', last, ite_self, if_neg (by omega)]

theorem dnodeRemove_links (filename : Bytes) (tallied : Tallied s k) (within : k < 65536) :
    ino (inodeLoad (dnodeRemove s k filename) k) = k ∧
      nlink (inodeLoad (dnodeRemove s k filename) k) +
        hits (dnodeListing s k).2.d filename 0 (dnodeListing s k).1 = size (inodeLoad s k) ∧
      size (inodeLoad (dnodeRemove s k filename) k) =
        if hits (dnodeListing s k).2.d filename 0 (dnodeListing s k).1 = 0 then size (inodeLoad s k)
        else size (inodeLoad s k) - 1 := by
  obtain ⟨own, links, fits⟩ := tallied
  have short : ushort k = k := ushort_nat within
  have listed := dnodeListing_rows s k
  have loaded : inodeLoad (dnodeListing s k).2 k = inodeLoad s k := inodeLoad_congr (dnodeListing_disk s k) k
  rw [dnodeRemove, short]
  generalize dnodeListing s k = l at *
  have most : hits l.2.d filename 0 l.1 ≤ l.1 := by
    have le := List.countP_le_length (p := fun j => Bytes.strncmpEq l.2.d (diEntSize * j) filename 0 13)
      (l := List.range' 0 l.1)
    rwa [List.length_range'] at le
  by_cases empty : l.1 = 0
  · have none : hits l.2.d filename 0 l.1 = 0 := by omega
    rw [none, if_pos rfl, empty, dnodeRemoveLoop, loaded, Nat.add_zero]
    exact ⟨own, links, rfl⟩
  · obtain ⟨own', taken, rows⟩ := dnodeRemoveLoop_links (s := l.2) (d := l.2.d) (i := 0) (n := l.1) filename l.1 within
      (by rw [loaded, own]) (by omega) (by omega) (by rw [loaded, links]; omega) fun _ _ => rfl
    rw [loaded] at taken rows
    rw [links] at taken
    exact ⟨own', taken, by rw [rows, listed]⟩

/-- A call keeps the counts in agreement if and only if it is one of those. -/
theorem DirOp.tallied_iff (tallied : Tallied s k) (within : k < 65536) :
    (op.Single k s → Tallied (op.run k s) k) ∧ (LinksAgree (op.run k s) k → op.Single k s) := by
  have limit : DENTRY_MAX_SIZE = 2086 := rfl
  have fits := tallied.fits
  have listed := dnodeListing_rows s k
  cases op with
  | append newItem =>
    obtain ⟨own, links, rows⟩ := dnodeAppend_links newItem tallied within
    simp only [DirOp.Single, DirOp.run, listed]
    refine ⟨fun room => ⟨own, ?_, ?_⟩, fun agree => ?_⟩
    · rw [links, rows]
      omega
    · rw [rows]
      omega
    · have same := agree.1
      rw [links, rows] at same
      omega
  | remove filename =>
    obtain ⟨own, links, rows⟩ := dnodeRemove_links filename tallied within
    simp only [DirOp.Single, DirOp.run]
    generalize hits (dnodeListing s k).2.d filename 0 (dnodeListing s k).1 = h at *
    refine ⟨fun once => ⟨own, ?_, ?_⟩, fun agree => ?_⟩
    · rw [rows]
      split <;> omega
    · rw [rows]
      split <;> omega
    · have same := agree.1
      rw [rows] at same
      split at same <;> omega

theorem dnodeInit_tallied (within : k < 65536) : Tallied (dnodeInit s k m) k := by
  rw [dnodeInit_eq]
  have loaded : inodeLoad (inodeDump s k (dnodeImage k m)) k = (dnodeImage k m).take 128 := inodeLoad_inodeDump within
  generalize inodeDump s k (dnodeImage k m) = t at loaded
  have rows : size (inodeLoad t k) = 2 := by
    rw [loaded, size, Bytes.get16_take (by omega)]
    exact size_dnodeImage
  refine ⟨?_, ?_, by rw [rows]; decide⟩
  · rw [loaded, ino, Bytes.get16_take (by omega)]
    exact ino_dnodeImage within
  · rw [rows, loaded, nlink, Bytes.get16_take (by omega)]
    exact nlink_dnodeImage

theorem dnodeListing_inline (inside : i < 96) : (dnodeListing s k).2.d i = inodeLoad s k (16 + i) := by
  have filled : Filled (diEntSize * size (inodeLoad s k)) i := Or.inl inside
  have entry := listing_apply (s := s) (k := k) (o := i) s.d diEntSize
  rw [if_pos filled, content, if_pos inside] at entry
  simp only [dnodeListing]
  rw [entry]

/-- The bytes of an entry that finds room in the inode itself. -/
theorem dnodeAppend_inline (item : Bytes) (tallied : Tallied s k) (within : k < 65536) (inside : i < 96) :
    inodeLoad (dnodeAppend s k item) k (16 + i) =
      if diEntSize * size (inodeLoad s k) ≤ i ∧ i < diEntSize * size (inodeLoad s k) + diEntSize
      then item (i - diEntSize * size (inodeLoad s k)) else inodeLoad s k (16 + i) := by
  obtain ⟨own, links, fits⟩ := tallied
  have short : ushort k = k := ushort_nat within
  generalize finalIs : dnodeAppend s k item = s'
  rw [dnodeAppend, short] at finalIs
  have listed := dnodeListing_rows s k
  have disk := dnodeListing_disk s k
  have byte := dnodeListing_inline (s := s) (k := k) inside
  generalize dnodeListing s k = l at *
  simp only [listed] at finalIs
  have faulted := fault_disk l.2 (decide (size (inodeLoad s k) ≥ DENTRY_MAX_SIZE))
  have buffer := fault_d l.2 (decide (size (inodeLoad s k) ≥ DENTRY_MAX_SIZE))
  generalize l.2.fault (decide (size (inodeLoad s k) ≥ DENTRY_MAX_SIZE)) = r at *
  have started := setD_disk r (r.d.copy (diEntSize * size (inodeLoad s k)) item 0 diEntSize)
  have copied := setD_d r (r.d.copy (diEntSize * size (inodeLoad s k)) item 0 diEntSize)
  generalize ({ r with d := r.d.copy (diEntSize * size (inodeLoad s k)) item 0 diEntSize } : State) = t at *
  have loaded : inodeLoad t k = inodeLoad s k := inodeLoad_congr (started.trans (faulted.trans disk)) k
  have set : inodeLoad (dnodeListingSet t k ((size (inodeLoad s k) : Int) + 1)) k (16 + i) = t.d i := by
    have own' : ino (inodeLoad t k) = k := by rw [loaded, own]
    have pushed : inodeLoad (errnoPush t (-EFBIG)) k = inodeLoad t k := inodeLoad_congr (errnoPush_disk ..) k
    have buffer := errnoPush_d t (-EFBIG)
    have image : ∀ {u : State} {v : Int} {y : Bytes}, ino (inodeLoad u k) = k →
        inodeLoad (listingSet diEntSize y u k v) k (16 + i) = y i := fun own => by
      have place : 0 + (16 + i - 16) = i := by omega
      rw [listingSet_inode within own (by omega), Bytes.copy_apply_of_mem (by omega) (by omega), place]
    rw [dnodeListingSet]
    split
    · exact image (by rw [pushed, own'])
    · exact image own'
  generalize dnodeListingSet t k ((size (inodeLoad s k) : Int) + 1) = u at *
  rw [← finalIs, inodeLoad_inodeDump within, Bytes.take_apply_of_lt (by omega), setNlink_apply (by omega), set,
    copied, buffer]
  split
  next here =>
    rw [Bytes.copy_apply_of_mem here.1 here.2, Nat.zero_add]
  next apart =>
    rw [Bytes.copy_apply_of_not_mem (by omega), byte]

/-- The first 13 bytes of the name in an entry. -/
theorem chars_entry {c : List UInt8} (clean : 0 ∉ c) (q : Nat) :
    Bytes.chars (diEntC (Bytes.cstr c Bytes.zero) q) 0 13 = c.take 13 := by
  rw [← Bytes.take_chars (by omega : 13 ≤ 14), chars_diEntC, Bytes.chars_cstr clean, List.take_take, Nat.min_self]

theorem dnodeInit_rows (within : k < 65536) : size (inodeLoad (dnodeInit s k m) k) = 2 := by
  rw [dnodeInit_eq, inodeLoad_inodeDump within, size, Bytes.get16_take (by omega)]
  exact size_dnodeImage

/-- In a new directory with one entry more no name but the two special ones stands twice. -/
theorem dnodeAppend_single (within : k < 65536) (item : Bytes) (notDot : Bytes.chars filename 0 13 ≠ [46])
    (notDotdot : Bytes.chars filename 0 13 ≠ [46, 46]) :
    (DirOp.remove filename).Single k (dnodeAppend (dnodeInit s k m) k item) := by
  have tallied := dnodeInit_tallied (s := s) (m := m) within
  have rows := dnodeInit_rows (s := s) (m := m) within
  have image : ∀ o < 32, inodeLoad (dnodeInit s k m) k (16 + o) = dnodeImage k m (16 + o) := fun o ho => by
    rw [dnodeInit_eq, inodeLoad_inodeDump within, Bytes.take_apply_of_lt (by omega)]
  generalize dnodeInit s k m = s₀ at *
  obtain ⟨_, _, rows₁⟩ := dnodeAppend_links item tallied within
  have bytes : ∀ o < 32, (dnodeListing (dnodeAppend s₀ k item) k).2.d o = dnodeImage k m (16 + o) := fun o ho => by
    rw [dnodeListing_inline (by omega), dnodeAppend_inline item tallied within (by omega), rows,
      if_neg (by simp only [diEntSize]; omega), image o ho]
  rw [rows] at rows₁
  generalize dnodeAppend s₀ k item = s₁ at *
  replace rows₁ : size (inodeLoad s₁ k) = 3 := rows₁
  have other : ∀ j, ∀ c : List UInt8, ∀ q, 0 ∉ c → (∀ o < 13, (dnodeListing s₁ k).2.d (diEntSize * j + o) =
      diEntC (Bytes.cstr c Bytes.zero) q o) → Bytes.chars filename 0 13 ≠ c.take 13 →
      Bytes.strncmpEq (dnodeListing s₁ k).2.d (diEntSize * j) filename 0 13 = false := fun j c q clean entry ne => by
    rw [Bool.eq_false_iff, ne_eq, Bytes.strncmpEq_iff]
    intro same
    refine ne (same.symm.trans ((Bytes.chars_congr fun o ho => ?_).trans (chars_entry clean q)))
    rw [Nat.zero_add, entry o ho]
  have first := other 0 [46] k (by decide)
    (fun o ho => by rw [Nat.mul_zero, Nat.zero_add, bytes o (by omega), (dnodeImage_entry (by omega)).1]) notDot
  have second := other 1 [46, 46] m (by decide) (fun o ho => by
    have place : 16 + (diEntSize * 1 + o) = 32 + o := by
      simp only [diEntSize]
      omega
    rw [bytes _ (by simp only [diEntSize]; omega), place, (dnodeImage_entry (by omega)).2]) notDotdot
  have last : hits (dnodeListing s₁ k).2.d filename 2 1 ≤ 1 := List.countP_le_length
  rw [DirOp.Single, dnodeListing_rows, rows₁, hits_succ, hits_succ, first, second]
  simpa using last

/-- As long as appends find room and names are removed that only one entry
has, the link count is the size, which is the number of entries listed; and
the next call keeps it so if and only if it is such a call. -/
theorem dnode_links (within : k < 65536)
    (run : Run (DirOp.run k) (fun s op => op.Single k s) (dnodeInit s k m) ops s') :
    LinksAgree s' k ∧ ∀ op : DirOp, LinksAgree (op.run k s') k ↔ op.Single k s' := by
  have tallied : Tallied s' k := Run.invariant (I := fun t => Tallied t k) (dnodeInit_tallied within)
    (fun t op tallied single => (DirOp.tallied_iff tallied within).1 single) run
  have agree : ∀ {t : State}, Tallied t k → LinksAgree t k := fun tallied => ⟨tallied.links, dnodeListing_rows _ k⟩
  exact ⟨agree tallied, fun op => ⟨(DirOp.tallied_iff tallied within).2, fun single =>
    agree ((DirOp.tallied_iff tallied within).1 single)⟩⟩

/-- The entry `a` is added to a new directory and removed again. -/
theorem dnode_links_removed :
    let s := DirOp.run 3 (DirOp.run 3 (dnodeInit (boot Bytes.zero) 3 2) (.append (diEntC (Bytes.cstr [97] Bytes.zero) 4)))
      (.remove (Bytes.cstr [97] Bytes.zero))
    LinksAgree s 3 ∧ ∀ op : DirOp, LinksAgree (op.run 3 s) 3 ↔ op.Single 3 s := by
  have room : (DirOp.append (diEntC (Bytes.cstr [97] Bytes.zero) 4)).Single 3 (dnodeInit (boot Bytes.zero) 3 2) := by
    rw [DirOp.Single, dnodeListing_rows, dnodeInit_rows (by omega)]
    decide
  have name : Bytes.chars (Bytes.cstr [97] Bytes.zero) 0 13 = [97] := by
    rw [Bytes.chars_cstr (by decide)]
    rfl
  have single : (DirOp.remove (Bytes.cstr [97] Bytes.zero)).Single 3 (DirOp.run 3 (dnodeInit (boot Bytes.zero) 3 2)
      (.append (diEntC (Bytes.cstr [97] Bytes.zero) 4))) := by
    rw [DirOp.run]
    exact dnodeAppend_single (by omega) _ (by rw [name]; decide) (by rw [name]; decide)
  exact dnode_links (by omega) ((Run.nil.next room).next single)

/-- A second entry of the name makes the removal count twice. -/
theorem dnodeRemove_twice (within : k < 65536) : ¬ LinksAgree (DirOp.run k (DirOp.run k (DirOp.run k
    (dnodeInit s k m) (.append (diEntC (Bytes.cstr [97] Bytes.zero) 4)))
      (.append (diEntC (Bytes.cstr [97] Bytes.zero) 5))) (.remove (Bytes.cstr [97] Bytes.zero))) k := by
  have tallied₀ := dnodeInit_tallied (s := s) (m := m) within
  have rows₀ := dnodeInit_rows (s := s) (m := m) within
  generalize dnodeInit s k m = s₀ at *
  have same := chars_entry (c := [97]) (by decide)
  have short : ([97] : List UInt8).take 13 = Bytes.chars (Bytes.cstr [97] Bytes.zero) 0 13 := by
    rw [Bytes.chars_cstr (by decide)]
  rw [short] at same
  generalize Bytes.cstr [97] Bytes.zero = name at *
  have single₀ : (DirOp.append (diEntC name 4)).Single k s₀ := by
    rw [DirOp.Single, dnodeListing_rows, rows₀]
    decide
  have tallied₁ := (DirOp.tallied_iff tallied₀ within).1 single₀
  obtain ⟨_, _, rows₁⟩ := dnodeAppend_links (diEntC name 4) tallied₀ within
  have bytes₁ := fun i hi => dnodeAppend_inline (i := i) (diEntC name 4) tallied₀ within hi
  rw [rows₀] at rows₁ bytes₁
  rw [DirOp.run] at tallied₁
  have step₁ : DirOp.run k s₀ (.append (diEntC name 4)) = dnodeAppend s₀ k (diEntC name 4) := rfl
  rw [step₁]
  generalize dnodeAppend s₀ k (diEntC name 4) = s₁ at *
  replace rows₁ : size (inodeLoad s₁ k) = 3 := rows₁
  have single₁ : (DirOp.append (diEntC name 5)).Single k s₁ := by
    rw [DirOp.Single, dnodeListing_rows, rows₁]
    decide
  have tallied₂ := (DirOp.tallied_iff tallied₁ within).1 single₁
  obtain ⟨_, _, rows₂⟩ := dnodeAppend_links (diEntC name 5) tallied₁ within
  have bytes₂ := fun i hi => dnodeAppend_inline (i := i) (diEntC name 5) tallied₁ within hi
  rw [rows₁] at rows₂ bytes₂
  rw [DirOp.run] at tallied₂
  have step₂ : DirOp.run k s₁ (.append (diEntC name 5)) = dnodeAppend s₁ k (diEntC name 5) := rfl
  rw [step₂]
  generalize dnodeAppend s₁ k (diEntC name 5) = s₂ at *
  replace rows₂ : size (inodeLoad s₂ k) = 4 := rows₂
  have entry : ∀ j q, (∀ o < 13, (dnodeListing s₂ k).2.d (diEntSize * j + o) = diEntC name q o) →
      Bytes.strncmpEq (dnodeListing s₂ k).2.d (diEntSize * j) name 0 13 = true := fun j q image => by
    rw [Bytes.strncmpEq_iff, ← same q]
    exact Bytes.chars_congr fun o ho => by rw [Nat.zero_add, image o ho]
  have first := entry 2 4 fun o ho => by
    rw [dnodeListing_inline (by simp only [diEntSize]; omega), bytes₂ _ (by simp only [diEntSize]; omega),
      if_neg (by simp only [diEntSize]; omega), bytes₁ _ (by simp only [diEntSize]; omega),
      if_pos (by simp only [diEntSize]; omega), Nat.add_sub_cancel_left]
  have second := entry 3 5 fun o ho => by
    rw [dnodeListing_inline (by simp only [diEntSize]; omega), bytes₂ _ (by simp only [diEntSize]; omega),
      if_pos (by simp only [diEntSize]; omega), Nat.add_sub_cancel_left]
  intro agree
  have single := (DirOp.tallied_iff tallied₂ within).2 (show LinksAgree ((DirOp.remove name).run k s₂) k from agree)
  rw [DirOp.Single, dnodeListing_rows, rows₂, hits_succ, hits_succ, hits_succ, hits_succ, first, second] at single
  simp only [if_true] at single
  omega

theorem dnodeRemove_twice_root : ¬ LinksAgree (DirOp.run 3 (DirOp.run 3 (DirOp.run 3 (dnodeInit (boot Bytes.zero) 3 2)
    (.append (diEntC (Bytes.cstr [97] Bytes.zero) 4))) (.append (diEntC (Bytes.cstr [97] Bytes.zero) 5)))
      (.remove (Bytes.cstr [97] Bytes.zero))) 3 :=
  dnodeRemove_twice (by omega)

end Sfs
