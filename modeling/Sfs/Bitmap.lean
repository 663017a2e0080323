import Sfs.Inode

namespace Sfs

/-- Bit `j` of a byte of the bitmap, the highest first. -/
def bitSet (byte : UInt8) (j : Nat) : Bool := byte.toNat.testBit (7 - j)

/-- What the search in one byte must return. -/
def popOk (byte : UInt8) : Bool :=
  match popBit byte 0x80 0 8 with
  | none => byte == 0
  | some (j, byte') =>
    j < 8 && bitSet byte j && (List.range 8).all fun i =>
      bitSet byte' i == (bitSet byte i && i != j) && (decide (j ≤ i) || !bitSet byte i)

theorem popOk_true (byte : UInt8) : popOk byte = true := by
  have table : ∀ n : Fin 256, popOk (UInt8.ofNat n) = true := by decide +kernel
  have value := table ⟨byte.toNat, byte.toNat_lt⟩
  rwa [UInt8.ofNat_toNat] at value

/-- The widened mask does no harm: the bits before the one found are clear. -/
theorem popBit_spec {byte : UInt8} (nonzero : byte ≠ 0) :
    ∃ j byte', popBit byte 0x80 0 8 = some (j, byte') ∧ j < 8 ∧ bitSet byte j = true ∧
      (∀ i < 8, bitSet byte' i = (bitSet byte i && i != j)) ∧ ∀ i < j, bitSet byte i = false := by
  have ok := popOk_true byte
  unfold popOk at ok
  cases found : popBit byte 0x80 0 8 with
  | none => simp [found, nonzero] at ok
  | some result =>
    obtain ⟨j, byte'⟩ := result
    simp only [found, Bool.and_eq_true, decide_eq_true_eq, List.all_eq_true, List.mem_range,
      beq_iff_eq, Bool.or_eq_true, Bool.not_eq_true'] at ok
    obtain ⟨⟨below, set⟩, each⟩ := ok
    refine ⟨j, byte', rfl, below, set, fun i hi => (each i hi).1, fun i hi => ?_⟩
    rcases (each i (by omega)).2 with le | clear
    · omega
    · exact clear

theorem bitSet_zero (j : Nat) : bitSet 0 j = false := by simp [bitSet]

theorem bitSet_or_mask (byte : UInt8) {i j : Nat} (hi : i < 8) (hj : j < 8) :
    bitSet (byte ||| (0x80 >>> UInt8.ofNat j)) i = (bitSet byte i || i == j) := by
  have mask : ∀ j i : Fin 8, bitSet (0x80 >>> UInt8.ofNat j) i = (i.val == j.val) := by decide
  have value := mask ⟨j, hj⟩ ⟨i, hi⟩
  simp only [bitSet] at value ⊢
  rw [UInt8.toNat_or, Nat.testBit_or, value]

/-- Number `k` of the bitmap `b`. -/
def bitAt (b : Bytes) (k : Nat) : Bool := bitSet (b (k / 8)) (k % 8)

theorem popByte_none {b : Bytes} {i n : Nat} (failed : popByte b i n = none) {k : Nat}
    (lower : 8 * i ≤ k) (upper : k < 8 * (i + n)) : bitAt b k = false := by
  induction n generalizing i with
  | zero => omega
  | succ n ih =>
    by_cases zero : b i = 0
    · simp only [popByte, zero, ne_eq, not_true, if_false] at failed
      by_cases here : k / 8 = i
      · rw [bitAt, here, zero, bitSet_zero]
      · exact ih failed (by omega) (by omega)
    · obtain ⟨j, byte, found, _⟩ := popBit_spec zero
      simp [popByte, zero, found] at failed

/-- The search returns the least number that is set and clears it. -/
theorem popByte_some {b b' : Bytes} {i n k : Nat} (found : popByte b i n = some (k, b')) :
    8 * i ≤ k ∧ k < 8 * (i + n) ∧ bitAt b k = true ∧
      (∀ k', bitAt b' k' = (bitAt b k' && k' != k)) ∧
      (∀ k', 8 * i ≤ k' → k' < k → bitAt b k' = false) ∧
      ∀ a, a < i ∨ i + n ≤ a → b' a = b a := by
  induction n generalizing i with
  | zero => simp [popByte] at found
  | succ n ih =>
    by_cases zero : b i = 0
    · simp only [popByte, zero, ne_eq, not_true, if_false] at found
      obtain ⟨lower, upper, set, after, least, frame⟩ := ih found
      refine ⟨by omega, by omega, set, after, fun k' low high => ?_, fun a out => frame a (by omega)⟩
      by_cases here : k' / 8 = i
      · rw [bitAt, here, zero, bitSet_zero]
      · exact least k' (by omega) high
    · obtain ⟨j, byte, hit, below, set, after, before⟩ := popBit_spec zero
      simp only [popByte, ne_eq, zero, not_false_iff, if_true, hit, Option.some.injEq,
        Prod.mk.injEq] at found
      obtain ⟨rfl, rfl⟩ := found
      have quotient : (8 * i + j) / 8 = i := by omega
      have remainder : (8 * i + j) % 8 = j := by omega
      refine ⟨by omega, by omega, ?_, fun k' => ?_, fun k' low high => ?_, fun a out => ?_⟩
      · rw [bitAt, quotient, remainder, set]
      · by_cases here : k' / 8 = i
        · have bit : (k' % 8 != j) = (k' != 8 * i + j) := by
            have : k' % 8 = j ↔ k' = 8 * i + j := by omega
            simp only [bne, beq_eq_decide, this]
          rw [bitAt, bitAt, here, Function.update_self, after _ (Nat.mod_lt _ (by omega)), bit]
        · have ne : k' ≠ 8 * i + j := by rintro rfl; omega
          rw [bitAt, bitAt, Function.update_of_ne here, bne_iff_ne.mpr ne, Bool.and_true]
      · have here : k' / 8 = i := by omega
        rw [bitAt, here]
        exact before _ (by omega)
      · exact Function.update_of_ne (by omega) ..

end Sfs
