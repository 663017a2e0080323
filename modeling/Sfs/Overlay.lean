import Sfs.Hole

namespace Sfs

variable {L : Set Nat} {s s' : State} {fl fl' taken : List Nat} {i j k e offset len : Nat} {buf f : Bytes}

theorem Stored.number_old (stored : Stored L s s' k buf offset len e fl taken fl')
    (before : j < size (s.stores.pool.cell k)) : blockNo s'.stores.pool k j = blockNo s.stores.pool k j := by
  obtain ⟨g, repaged⟩ := stored.repaged
  have more : j < size (s'.stores.pool.cell k) := by
    rw [repaged.resized.size]
    omega
  have entry := blocksOf_getElem? (p := s'.stores.pool) more
  rw [stored.blocks, List.getElem?_append_left (by rw [length_blocksOf]; exact before), blocksOf_getElem? before] at entry
  exact (Option.some.inj entry).symm

theorem Stored.number_new (stored : Stored L s s' k buf offset len e fl taken fl')
    (from₀ : size (s.stores.pool.cell k) ≤ j) (before : j < size (s'.stores.pool.cell k)) :
    blockNo s'.stores.pool k j ∈ taken := by
  have entry := blocksOf_getElem? (p := s'.stores.pool) before
  rw [stored.blocks, List.getElem?_append_right (by rw [length_blocksOf]; exact from₀)] at entry
  exact List.mem_of_getElem? entry

/-- A byte of a file that has been written without a hole. -/
theorem Stored.byte (stored : Stored L s s' k buf offset len e fl taken fl') (wf : Consistent L s' fl') (live : k ∈ L)
    (file : isdir (s'.stores.pool.cell k) = 0) (noHole : offset / 512 ≤ size (s.stores.pool.cell k))
    (stop : lastBlock offset len ≤ e) (within : i < 512 * size (s'.stores.pool.cell k)) :
    s'.stores.data (blockNo s'.stores.pool k (i / 512)) (i % 512) =
      if offset ≤ i ∧ i < offset + len then buf (i - offset)
      else if i / 512 < size (s.stores.pool.cell k)
        then s.stores.data (blockNo s.stores.pool k (i / 512)) (i % 512) else 0 := by
  obtain ⟨g, repaged⟩ := stored.repaged
  have rows := repaged.resized.size
  have split : 512 * (i / 512) + i % 512 = i := by omega
  by_cases page : offset / 512 ≤ i / 512 ∧ i / 512 < e
  · rw [stored.page _ _ page.1 page.2 (by omega), split]
  · have outside : ¬ (offset ≤ i ∧ i < offset + len) := by
      intro inside
      simp only [lastBlock] at stop
      omega
    have apart : ∀ j, offset / 512 ≤ j → j < e → blockNo s'.stores.pool k j ≠ blockNo s'.stores.pool k (i / 512) := by
      intro j lower upper same
      have nodup := (wf.blocks.nodup k live file).of_append_left
      have equal := List.inj_on_of_nodup_map nodup (List.mem_range.mpr (by omega)) (List.mem_range.mpr (by omega)) same
      omega
    rw [if_neg outside, stored.frame _ apart]
    by_cases before : i / 512 < size (s.stores.pool.cell k)
    · rw [if_pos before, stored.number_old before]
    · exfalso
      omega

theorem lastBlock_le (limit : offset + len ≤ FCONTENT_MAX_SIZE) : lastBlock offset len ≤ 8344 := by
  have max : FCONTENT_MAX_SIZE = 4272128 := rfl
  rw [lastBlock]
  omega

theorem writeRows_enough {rows free : Nat} (limit : offset + len ≤ FCONTENT_MAX_SIZE)
    (blocks : lastBlock offset len ≤ max rows (offset / 512) + free) (noHole : offset / 512 ≤ rows) :
    writeRows rows free offset len = max rows (lastBlock offset len) := by
  have stop := lastBlock_le limit
  clear limit
  rw [writeRows]
  generalize lastBlock offset len = last at *
  generalize offset / 512 = first at *
  omega

/-- The loop has reached the last block when there were blocks enough. -/
theorem stop_eq_lastBlock {rows count : Nat} (limit : offset + len ≤ FCONTENT_MAX_SIZE)
    (blocks : lastBlock offset len ≤ max rows (offset / 512) + fl.length) (noHole : offset / 512 ≤ rows)
    (split : fl = taken ++ fl') (counted : count = rows + taken.length) (rowsIs : count = max e rows)
    (final : e = max (offset / 512) (min (lastBlock offset len) 8344) ∨
      fl' = [] ∧ e < min (lastBlock offset len) 8344 ∧ rows ≤ e) : e = lastBlock offset len ∧
        ¬ (fl' = [] ∧ e < min (lastBlock offset len) 8344 ∧ rows ≤ e) := by
  have stop := lastBlock_le limit
  have order := start_le_lastBlock offset len
  have all := congrArg List.length split
  rw [List.length_append] at all
  clear limit
  generalize lastBlock offset len = last at *
  generalize offset / 512 = first at *
  have never : ¬ (fl' = [] ∧ e < min last 8344 ∧ rows ≤ e) := by
    rintro ⟨short, before, beyond⟩
    rw [short, List.length_nil] at all
    omega
  refine ⟨?_, never⟩
  have atEnd := final.resolve_right never
  omega

/-- With enough free blocks a write without a hole reaches its last block. -/
theorem fstreamWrite_stored (buf : Bytes) (wf : Consistent L s fl) (live : k ∈ L) (file : isdir (s.stores.pool.cell k) = 0)
    (noHole : offset / 512 ≤ size (s.stores.pool.cell k)) (limit : offset + len ≤ FCONTENT_MAX_SIZE)
    (blocks : lastBlock offset len ≤ max (size (s.stores.pool.cell k)) (offset / 512) + fl.length)
    (inodes : pageCount (blknumSize * max (size (s.stores.pool.cell k)) (lastBlock offset len))
      (blknumSize * size (s.stores.pool.cell k)) ≤ s.stores.pool.freeCount 1024) :
    ∃ taken fl', Stored L s (fstreamWrite s k buf len offset).2 k buf offset len (lastBlock offset len) fl taken fl' ∧
      Consistent L (fstreamWrite s k buf len offset).2 fl' ∧ (fstreamWrite s k buf len offset).2.errno = 0 ∧
      (s.errno = 0 → (fstreamWrite s k buf len offset).1 = len) := by
  have small : offset + len < 2147483648 := lt_of_le_of_lt limit (by decide)
  obtain ⟨e, taken, fl', stored, _, errno, final⟩ := fstreamWrite_spec buf
    wf.owned live file wf.list wf.blocks small noHole
    (Or.inr (by rw [writeRows_enough limit blocks noHole, endOf_file file]; exact inodes))
  generalize fstreamWrite s k buf len offset = o at *
  have step := stored.fileStep
  obtain ⟨g, repaged⟩ := stored.repaged
  have rows := repaged.resized.size
  have count := congrArg List.length stored.blocks
  rw [List.length_append, length_blocksOf, length_blocksOf] at count
  obtain ⟨rfl, never⟩ := stop_eq_lastBlock limit blocks noHole stored.split count rows
    (final.imp And.left fun h => ⟨h.1, h.2.1, h.2.2.1⟩)
  have result : s.errno = 0 → o.1 = len := by
    rcases final with ⟨_, result⟩ | h
    · exact result
    · exact absurd ⟨h.1, h.2.1, h.2.2.1⟩ never
  refine ⟨taken, fl', stored, step.consistent wf live file ?_, errno, result⟩
  have covered := wf.covered k live file
  have fits := wf.owned.fits k live
  rw [endOf_file file, blknumSize] at fits
  have reach : offset + len ≤ 512 * lastBlock offset len := by
    rw [lastBlock]
    omega
  rw [stored.fsize_eq (by omega), rows]
  generalize fsize (s.stores.pool.cell k) = bytes at *
  generalize size (s.stores.pool.cell k) = rows at *
  omega

end Sfs
