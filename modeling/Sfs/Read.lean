import Sfs.WellFormed

namespace Sfs

variable {L : Set Nat} {s : State} {k offset len rows : Nat} {f : Bytes}

/-- `fstream_read` in natural numbers, for a request that does not overflow. -/
theorem fstreamRead_eq (owned : Owned L s.stores.pool) (live : k ∈ L)
    (file : isdir (s.stores.pool.cell k) = 0) (small : offset + len < 2147483648)
    (short : fsize (s.stores.pool.cell k) < 2147483648)
    (listed : fnodeListing s k = (rows, { s with f })) (limit : rows ≤ 8344) :
    fstreamRead s k len offset =
      (⟨(min len (fsize (s.stores.pool.cell k) - offset) : Nat),
        (List.range (min len (fsize (s.stores.pool.cell k) - offset))).map fun j =>
          if offset / 512 + (offset % 512 + j) / 512 < rows
          then blockRead s (fGet { s with f } (offset / 512 + (offset % 512 + j) / 512 : Nat)) ((offset % 512 + j) % 512)
          else 0⟩, { s with f }) := by
  have range := owned.node_range live
  have inum : ushort k = k := ushort_nat (by omega)
  have start : ({ s with f } : State).stores = s.stores := stores_congr rfl
  have attr : (inodeGetAttrUpc { s with f } k).2.2 = fsize (s.stores.pool.cell k) := by
    have ownedStart : Owned L ({ s with f } : State).stores.pool := by rwa [start]
    rw [inodeGetAttrUpc_file ownedStart.toMarked live (by rw [start]; exact file), start]
  generalize fsize (s.stores.pool.cell k) = bytes at *
  have bytesIs : int32 bytes = bytes := int32_of_mem (by omega) (by omega)
  have stop : (((offset + len) / 512 : Nat) : Int) + 1 = ((offset + len) / 512 + 1 : Nat) := rfl
  have rounds : ((((offset + len) / 512 + 1 : Nat) : Int) - (offset / 512 : Nat)).toNat =
      (offset + len) / 512 + 1 - offset / 512 := by omega
  have noFault : (decide ((((offset + len) / 512 + 1 : Nat) : Int) < (offset / 512 : Nat)) ||
      decide (((offset + len : Nat) : Int) ≠ (offset : Int) + len) || decide ((offset : Int) < 0)) = false := by
    simp
    omega
  have sizeIs : (if (if (bytes : Int) - offset < len then (bytes : Int) - offset else len) > 0
      then (if (bytes : Int) - offset < len then (bytes : Int) - offset else len) else 0) =
        (min len (bytes - offset) : Nat) := by
    split <;> split at * <;> omega
  obtain ⟨state, image⟩ := readBlocks_spec (s := { s with f }) (offset / 512)
    ((offset + len) / 512 + 1 - offset / 512) 0 Bytes.zero limit
    (show offset / 512 + ((offset + len) / 512 + 1 - offset / 512) = (offset + len) / 512 + 1 by omega)
  rw [fstreamRead]
  simp only [inum, listed, tdiv_nat, tmod_nat, stop, stop_eq small, rounds, attr, bytesIs, noFault, fault_false, state,
    sizeIs, Int.toNat_natCast]
  rw [Prod.mk.injEq, ReadResult.mk.injEq]
  refine ⟨⟨rfl, List.map_congr_left fun j member => ?_⟩, rfl⟩
  have within := List.mem_range.mp member
  rw [image]
  by_cases inside : offset / 512 + (offset % 512 + j) / 512 < rows
  · rw [if_pos inside, if_pos (by omega), Nat.sub_zero]
    rfl
  · rw [if_neg inside, if_neg (by omega)]
    rfl

/-- Reading gives the bytes of the content from `offset` on. -/
theorem fstreamRead_spec (owned : Owned L s.stores.pool) (live : k ∈ L)
    (file : isdir (s.stores.pool.cell k) = 0) (small : offset + len < 2147483648)
    (covered : fsize (s.stores.pool.cell k) ≤ 512 * size (s.stores.pool.cell k))
    (area : ∀ b ∈ blocksOf s.stores.pool k, 1025 ≤ b ∧ b < 32768) :
    (fstreamRead s k len offset).1 =
      ⟨(min len (fsize (s.stores.pool.cell k) - offset) : Nat), ((contentOf s.stores k).drop offset).take len⟩ := by
  have fits := owned.fits k live
  obtain ⟨f, listed, bytes, _⟩ := owned.fnodeListing_spec live file
  rw [endOf_file file] at bytes fits
  have limit : size (s.stores.pool.cell k) ≤ 8344 := by
    simp only [blknumSize] at fits
    omega
  rw [fstreamRead_eq owned live file small (by omega) listed limit, ReadResult.mk.injEq]
  have length := length_contentOf covered
  refine ⟨rfl, List.ext_getElem? fun j => ?_⟩
  by_cases within : j < min len (fsize (s.stores.pool.cell k) - offset)
  · have index : offset / 512 + (offset % 512 + j) / 512 = (offset + j) / 512 := by omega
    have place : (offset % 512 + j) % 512 = (offset + j) % 512 := by omega
    have inside : (offset + j) / 512 < size (s.stores.pool.cell k) := by omega
    have held := area _ (List.mem_map.mpr ⟨_, List.mem_range.mpr inside, rfl⟩)
    have number : fNo f ((offset + j) / 512) = blockNo s.stores.pool k ((offset + j) / 512) :=
      block_congr bytes fits inside
    have got : fGet { s with f } ((offset + j) / 512 : Nat) = blockNo s.stores.pool k ((offset + j) / 512) := by
      rw [← number] at held ⊢
      exact fGet_nat (held.2.trans (by decide))
    rw [List.getElem?_map, List.getElem?_range within, Option.map_some, index, place, if_pos inside, got,
      blockRead_data held.1 (held.2.trans (by decide)), List.getElem?_take_of_lt (by omega), List.getElem?_drop,
      contentOf_getElem? (by omega) (by omega)]
  · rw [List.getElem?_eq_none (by rw [List.length_map, List.length_range]; omega),
      List.getElem?_eq_none (by rw [List.length_take, List.length_drop, length]; omega)]

end Sfs
