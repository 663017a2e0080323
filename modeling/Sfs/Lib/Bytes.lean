import Mathlib.Tactic.Common

/-- A byte memory, addressed from 0. A C object of `n` bytes is the part
of such a memory below `n`; what lies above is never read. -/
abbrev Bytes := Nat → UInt8

namespace Bytes

def zero : Bytes := fun _ => 0

/-- The first `n` bytes of `m`, followed by zeros. -/
def take (n : Nat) (m : Bytes) : Bytes := fun i => if i < n then m i else 0

/-- The `n` bytes at `a`, moved to 0. -/
def window (m : Bytes) (a n : Nat) : Bytes := take n fun i => m (a + i)

/-- `memcpy(dst + doff, src + soff, n)`. -/
def copy (dst : Bytes) (doff : Nat) (src : Bytes) (soff n : Nat) : Bytes :=
  fun i => if doff ≤ i ∧ i < doff + n then src (soff + (i - doff)) else dst i

/-- The two bytes at `a` read as a little-endian number. -/
def get16 (m : Bytes) (a : Nat) : Nat := (m a).toNat + 256 * (m (a + 1)).toNat

def put16 (m : Bytes) (a v : Nat) : Bytes := fun i =>
  if i = a then UInt8.ofNat v else if i = a + 1 then UInt8.ofNat (v / 256) else m i

/-- The four bytes at `a` read as a little-endian number. -/
def get32 (m : Bytes) (a : Nat) : Nat := get16 m a + 65536 * get16 m (a + 2)

def put32 (m : Bytes) (a v : Nat) : Bytes := put16 (put16 m a v) (a + 2) (v / 65536)

variable {m m' src : Bytes} {a b n i v doff soff : Nat}

theorem take_apply_of_lt (within : i < n) : take n m i = m i := if_pos within

theorem take_apply_of_le (above : n ≤ i) : take n m i = 0 := if_neg (by omega)

@[simp] theorem take_take : take n (take n m) = take n m := by
  funext i
  simp only [take]
  split <;> rfl

theorem take_congr (same : ∀ i < n, m i = m' i) : take n m = take n m' := by
  funext i
  simp only [take]
  split
  next within => exact same i within
  next => rfl

theorem copy_apply_of_mem (lower : doff ≤ i) (upper : i < doff + n) :
    copy m doff src soff n i = src (soff + (i - doff)) := if_pos ⟨lower, upper⟩

theorem copy_apply_of_not_mem (outside : i < doff ∨ doff + n ≤ i) :
    copy m doff src soff n i = m i := if_neg (by omega)

theorem window_apply_of_lt (within : i < n) : window m a n i = m (a + i) := if_pos within

theorem window_congr (same : ∀ i < n, m (a + i) = m' (b + i)) : window m a n = window m' b n :=
  take_congr same

theorem window_window {k : Nat} (within : b + k ≤ n) : window (window m a n) b k = window m (a + b) k :=
  window_congr fun i hi => by rw [window_apply_of_lt (by omega), Nat.add_assoc]

theorem window_copy_self : window (copy m a src soff n) a n = window src soff n :=
  window_congr fun i hi => by
    rw [copy_apply_of_mem (by omega) (by omega)]
    congr 1
    omega

theorem window_copy_of_disjoint {k : Nat} (apart : b + k ≤ a ∨ a + n ≤ b) :
    window (copy m a src soff n) b k = window m b k :=
  window_congr fun _ _ => copy_apply_of_not_mem (by omega)

theorem get16_lt (m : Bytes) (a : Nat) : get16 m a < 65536 := by
  have low := (m a).toNat_lt
  have high := (m (a + 1)).toNat_lt
  simp only [get16]
  omega

theorem get32_lt (m : Bytes) (a : Nat) : get32 m a < 4294967296 := by
  have low := get16_lt m a
  have high := get16_lt m (a + 2)
  simp only [get32]
  omega

theorem get16_congr (first : m a = m' b) (second : m (a + 1) = m' (b + 1)) :
    get16 m a = get16 m' b := by
  simp only [get16, first, second]

theorem get32_congr (same : ∀ j < 4, m (a + j) = m' (b + j)) : get32 m a = get32 m' b := by
  have low : get16 m a = get16 m' b := get16_congr (same 0 (by omega)) (same 1 (by omega))
  have high : get16 m (a + 2) = get16 m' (b + 2) :=
    get16_congr (same 2 (by omega)) (same 3 (by omega))
  simp only [get32, low, high]

@[simp] theorem get16_put16_self : get16 (put16 m a v) a = v % 65536 := by
  have step : ¬ a + 1 = a := by omega
  simp only [get16, put16, if_true, step, if_false, UInt8.toNat_ofNat']
  omega

theorem put16_apply_of_ne (outside : i < a ∨ a + 2 ≤ i) : put16 m a v i = m i := by
  have first : ¬ i = a := by omega
  have second : ¬ i = a + 1 := by omega
  simp only [put16, first, second, if_false]

/-- Storing what is there already. -/
theorem put16_get16 : put16 m a (get16 m a) = m := by
  funext i
  by_cases first : i = a
  · subst first
    simp [put16, get16, UInt8.ofNat_add]
  by_cases second : i = a + 1
  · subst second
    have low := (m a).toNat_lt
    have high : ((m a).toNat + 256 * (m (a + 1)).toNat) / 256 = (m (a + 1)).toNat := by omega
    simp [put16, get16, high]
  · exact put16_apply_of_ne (by omega)

theorem get16_put16_of_ne (apart : b + 2 ≤ a ∨ a + 2 ≤ b) : get16 (put16 m a v) b = get16 m b :=
  get16_congr (put16_apply_of_ne (by omega)) (put16_apply_of_ne (by omega))

theorem put32_apply_of_ne (outside : i < a ∨ a + 4 ≤ i) : put32 m a v i = m i := by
  rw [put32, put16_apply_of_ne (by omega), put16_apply_of_ne (by omega)]

@[simp] theorem get32_put32_self : get32 (put32 m a v) a = v % 4294967296 := by
  rw [get32, put32, get16_put16_of_ne (by omega), get16_put16_self, get16_put16_self]
  omega

theorem get16_put32_of_ne (apart : b + 2 ≤ a ∨ a + 4 ≤ b) : get16 (put32 m a v) b = get16 m b :=
  get16_congr (put32_apply_of_ne (by omega)) (put32_apply_of_ne (by omega))

theorem get32_put32_of_ne (apart : b + 4 ≤ a ∨ a + 4 ≤ b) : get32 (put32 m a v) b = get32 m b :=
  get32_congr fun _ _ => put32_apply_of_ne (by omega)

theorem get16_take (within : a + 2 ≤ n) : get16 (take n m) a = get16 m a :=
  get16_congr (take_apply_of_lt (by omega)) (take_apply_of_lt (by omega))

theorem get32_take (within : a + 4 ≤ n) : get32 (take n m) a = get32 m a :=
  get32_congr fun _ _ => take_apply_of_lt (by omega)

theorem get16_window (within : b + 2 ≤ n) : get16 (window m a n) b = get16 m (a + b) :=
  get16_congr (window_apply_of_lt (by omega)) (window_apply_of_lt (by omega))

@[simp] theorem get16_zero : get16 zero a = 0 := rfl

@[simp] theorem get32_zero : get32 zero a = 0 := rfl

theorem get16_copy_of_not_mem (apart : a + 2 ≤ doff ∨ doff + n ≤ a) :
    get16 (copy m doff src soff n) a = get16 m a :=
  get16_congr (copy_apply_of_not_mem (by omega)) (copy_apply_of_not_mem (by omega))

end Bytes
