import Sfs.Pages
import Sfs.Quiet

namespace Sfs

/-- The pages of a node whose listing ends at `cacheEnd` are distinct and
marked used. -/
structure PagesOk (p : Pool Bytes) (x : Bytes) (cacheEnd : Nat) : Prop where
  inj : ∀ c c', Wants cacheEnd c → Wants cacheEnd c' → pageNo p.cell x c = pageNo p.cell x c' → c = c'
  lower : ∀ c, Wants cacheEnd c → 2 ≤ pageNo p.cell x c
  upper : ∀ c, Wants cacheEnd c → pageNo p.cell x c < 1024
  used : ∀ c, Wants cacheEnd c → p.free (pageNo p.cell x c) = false

/-- The slots 0 and 1 are not free. -/
def LowUsed (p : Pool Bytes) : Prop := ∀ q, p.free q = true → 2 ≤ q

variable {p₀ : Pool Bytes} {x₀ : Bytes} {ptrEnd cacheEnd : Nat}

theorem PagesOk.plan (ok : PagesOk p₀ x₀ cacheEnd) :
    p₀.Plan (pageNo p₀.cell x₀) (Wants cacheEnd) (Wants ptrEnd) (Freed ptrEnd cacheEnd) where
  inj := ok.inj
  used := ok.used
  dropped _ freed := ⟨freed.1, freed.2.1⟩
  oneWay c c' freed wants := by
    have was := freed.1
    have not := freed.2.1
    simp only [Wants] at was not wants ⊢
    omega

/-- Either no pop failed on the way to `final`, or there was room for all
new pages at the start. -/
def Pops (p₀ : Pool Bytes) (ptrEnd cacheEnd : Nat) (final : State) : Prop :=
  Call.freeInodePop 0 ∉ final.trace ∨ pageCount ptrEnd cacheEnd ≤ p₀.freeCount 1024

/-- Or no error was pending at the end. -/
def Supplied (p₀ : Pool Bytes) (ptrEnd cacheEnd : Nat) (final : State) : Prop :=
  Pops p₀ ptrEnd cacheEnd final ∨ 0 ≤ final.errno

/-- `s'` differs from `s` on the disk only, where the data blocks are the
same; unless slot 0 or 1 was free, sound calls led to it. -/
structure Paging (s s' : State) : Prop where
  eq : s' = { s with disk := s'.disk, trace := s'.trace }
  kept : Later s s'
  data : s'.stores.data = s.stores.data
  quiet : LowUsed s.stores.pool → Quiet s s'

/-- A resize from `s₀` that has dealt with the pages in `done`. -/
structure Stage (s₀ : State) (x₀ : Bytes) (ptrEnd cacheEnd : Nat) (done : Set Nat)
    (img : Nat → Option Bytes) (s : State) (new : Nat → Nat) : Prop where
  resize : Pool.Resize s₀.slots 1024 (pageNo s₀.slots.cell x₀) (Wants cacheEnd)
    (Wants ptrEnd) (Freed ptrEnd cacheEnd) done img s.slots new
  paging : Paging s₀ s

namespace Paging

variable {s s' : State} {k q : Nat} {x : Bytes}

theorem refl (s : State) : Paging s s := ⟨rfl, fun _ => id, rfl, fun _ => .refl s⟩

theorem inodeDump (paging : Paging s s') (upper : k < 1024) (lower : LowUsed s.stores.pool → 2 ≤ k) :
    Paging s (inodeDump s' k x) where
  eq := by rw [inodeDump_eq (by omega), paging.eq]
  kept := paging.kept.trans (later_inodeDump _ _ _)
  data := by rw [data_inodeDump (by omega), paging.data]
  quiet low := (paging.quiet low).trans (quiet_inodeDump (lower low) upper)

theorem freeInodePush (paging : Paging s s') (lower : 2 ≤ q) (upper : q < 1024) : Paging s (freeInodePush s' q) where
  eq := by rw [freeInodePush_eq lower (by omega), paging.eq]
  kept := paging.kept.trans (later_freeInodePush _ _)
  data := by rw [(slots_freeInodePush lower (by omega)).2, paging.data]
  quiet low := (paging.quiet low).trans (quiet_freeInodePush lower (by omega))

theorem freeInodePop {disk : Bytes} (paging : Paging s s')
    (run : Sfs.freeInodePop s' = (q, { s' with disk := disk, trace := .freeInodePop q :: s'.trace }))
    (stores : (Sfs.freeInodePop s').2.stores = s'.stores.setPool (s'.stores.pool.take q)) :
    Paging s (Sfs.freeInodePop s').2 := by
  have data : (Sfs.freeInodePop s').2.stores.data = s.stores.data := by rw [stores, Stores.setPool_data, paging.data]
  have kept : Later s (Sfs.freeInodePop s').2 := paging.kept.trans (later_freeInodePop _)
  rw [run] at kept data ⊢
  refine ⟨by rw [paging.eq], kept, data, fun low => (paging.quiet low).trans ⟨rfl, fun call member => ?_, ?_⟩⟩
  · rcases List.mem_cons.mp member with rfl | earlier
    · exact Or.inr trivial
    · exact Or.inl earlier
  · exact fun _ member => List.mem_cons_of_mem _ member

end Paging

namespace Stage

variable {s₀ s final : State} {done done' : Set Nat} {img : Nat → Option Bytes} {new : Nat → Nat}
  {c : Nat} {x : Bytes}

theorem start (s₀ : State) (x₀ : Bytes) (new : Nat → Nat) :
    Stage s₀ x₀ ptrEnd cacheEnd ∅ (fun _ => none) s₀ new :=
  ⟨.start, .refl s₀⟩

theorem congr (stage : Stage s₀ x₀ ptrEnd cacheEnd done img s new) (same : ∀ c, c ∈ done' ↔ c ∈ done) :
    Stage s₀ x₀ ptrEnd cacheEnd done' img s new := Set.ext same ▸ stage

/-- A page placed so far has a number in range. -/
theorem new_range (stage : Stage s₀ x₀ ptrEnd cacheEnd done img s new)
    (ok : PagesOk s₀.slots x₀ cacheEnd) (member : c ∈ done) (wants : Wants ptrEnd c) :
    new c < 1024 ∧ (LowUsed s₀.stores.pool → 2 ≤ new c) := by
  by_cases was : Wants cacheEnd c
  · rw [stage.resize.kept c member wants was]
    exact ⟨ok.upper c was, fun _ => ok.lower c was⟩
  · obtain ⟨free, upper⟩ := stage.resize.fresh c member wants was
    exact ⟨upper, fun low => low _ free⟩

theorem keep (stage : Stage s₀ x₀ ptrEnd cacheEnd done img s new)
    (ok : PagesOk s₀.slots x₀ cacheEnd) (todo : c ∉ done) (wants : Wants ptrEnd c)
    (was : Wants cacheEnd c) :
    Stage s₀ x₀ ptrEnd cacheEnd (insert c done) img s
      (Function.update new c (pageNo s₀.slots.cell x₀ c)) :=
  ⟨stage.resize.keep ok.plan todo wants was, stage.paging⟩

theorem skip (stage : Stage s₀ x₀ ptrEnd cacheEnd done img s new) {more : Set Nat}
    (idle : ∀ c ∈ more, ¬ Wants ptrEnd c ∧ ¬ Freed ptrEnd cacheEnd c) :
    Stage s₀ x₀ ptrEnd cacheEnd (done ∪ more) img s new :=
  ⟨stage.resize.skip idle, stage.paging⟩

theorem dump (stage : Stage s₀ x₀ ptrEnd cacheEnd done img s new)
    (ok : PagesOk s₀.slots x₀ cacheEnd) (member : c ∈ done) (wants : Wants ptrEnd c) (x : Bytes) :
    Stage s₀ x₀ ptrEnd cacheEnd done (Function.update img c (some (x.take 128)))
      (inodeDump s (new c) x) new := by
  obtain ⟨upper, lower⟩ := stage.new_range ok member wants
  refine ⟨?_, stage.paging.inodeDump upper lower⟩
  rw [slots_inodeDump (by omega)]
  exact stage.resize.write member wants _

theorem give (stage : Stage s₀ x₀ ptrEnd cacheEnd done img s new)
    (ok : PagesOk s₀.slots x₀ cacheEnd) (freed : Freed ptrEnd cacheEnd c) :
    Stage s₀ x₀ ptrEnd cacheEnd (insert c done) img
      (freeInodePush s (pageNo s₀.slots.cell x₀ c)) new := by
  have lower := ok.lower c freed.1
  have upper := ok.upper c freed.1
  refine ⟨?_, stage.paging.freeInodePush lower upper⟩
  rw [(slots_freeInodePush lower (by omega)).1]
  exact stage.resize.give ok.plan freed

/-- A pop made for a new page succeeds. -/
theorem pop (stage : Stage s₀ x₀ ptrEnd cacheEnd done img s new)
    (ok : PagesOk s₀.slots x₀ cacheEnd) (todo : c ∉ done) (wants : Wants ptrEnd c)
    (wasNot : ¬ Wants cacheEnd c) (supplied : Supplied s₀.slots ptrEnd cacheEnd final)
    (onward : Onward (freeInodePop s).2 final) :
    ∃ q s', freeInodePop s = (q, s') ∧ q < 1024 ∧
      Stage s₀ x₀ ptrEnd cacheEnd (insert c done) img s' (Function.update new c q) := by
  rcases freeInodePop_cases s with ⟨q, disk, run, upper, free, _, stores⟩ | ⟨run, empty⟩
  · have paging := stage.paging.freeInodePop run stores
    have resize := stage.resize.take ok.plan todo wants wasNot free upper
    have slots : (freeInodePop s).2.slots = s.slots.take q := by
      rw [slots_freeInodePop, stores]
      rfl
    rw [run] at slots paging
    refine ⟨q, _, run, upper, ?_, paging⟩
    rw [slots]
    exact resize
  · exfalso
    rcases supplied with (never | budget) | clear
    · have failed : Call.freeInodePop 0 ∈ (freeInodePop s).2.trace := by
        rw [run]
        exact List.mem_cons_self ..
      exact never (onward.later _ failed)
    · obtain ⟨q, within, free⟩ := stage.resize.room ok.plan 264 (fun c h => h.1)
        budget todo wants wasNot
      rw [show s.slots.free q = false from empty q within] at free
      exact Bool.false_ne_true free
    · have failed : (freeInodePop s).2.errno < 0 := by
        rw [run]
        exact (by decide : -ENOSPC < 0)
      exact absurd (onward.failed failed) (not_lt.mpr clear)

end Stage

end Sfs
