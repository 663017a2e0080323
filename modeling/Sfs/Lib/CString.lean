import Mathlib.Data.List.TakeWhile
import Sfs.Lib.Bytes

namespace Bytes

/-- The NUL-terminated string `chars` in memory, followed by `tail`. -/
def cstr (chars : List UInt8) (tail : Bytes) : Bytes := fun i =>
  if h : i < chars.length then chars[i] else if i = chars.length then 0
    else tail (i - chars.length - 1)

/-- The characters at `a`, up to a NUL and at most `n` of them. -/
def chars (m : Bytes) (a : Nat) : Nat → List UInt8
  | 0 => []
  | n + 1 => if m a = 0 then [] else m a :: chars m (a + 1) n

/-- `strncmp(m + a, m' + b, n) == 0`. -/
def strncmpEq (m : Bytes) (a : Nat) (m' : Bytes) (b : Nat) : Nat → Bool
  | 0 => true
  | n + 1 =>
    if m a ≠ m' b then false
    else if m a = 0 then true
    else strncmpEq m (a + 1) m' (b + 1) n

variable {m m' tail : Bytes} {a b n k : Nat} {name other : List UInt8}

theorem strncmpEq_iff : strncmpEq m a m' b n = true ↔ chars m a n = chars m' b n := by
  induction n generalizing a b with
  | zero => simp [strncmpEq, chars]
  | succ n ih =>
    by_cases same : m a = m' b
    · by_cases nul : m' b = 0
      · simp [strncmpEq, chars, same, nul]
      · simp [strncmpEq, chars, same, nul, ih]
    · by_cases nul : m a = 0
      · have other : m' b ≠ 0 := fun h => same (nul.trans h.symm)
        simp [strncmpEq, chars, nul, other, Ne.symm other]
      · by_cases nul' : m' b = 0 <;> simp [strncmpEq, chars, same, nul, nul']

theorem chars_congr (same : ∀ j < n, m (a + j) = m' (b + j)) : chars m a n = chars m' b n := by
  induction n generalizing a b with
  | zero => rfl
  | succ n ih =>
    have first : m a = m' b := same 0 (by omega)
    have rest : chars m (a + 1) n = chars m' (b + 1) n := ih fun j hj => by
      have := same (j + 1) (by omega)
      simpa only [Nat.add_assoc, Nat.add_comm 1 j] using this
    simp only [chars, first, rest]

theorem take_chars (within : k ≤ n) : (chars m a n).take k = chars m a k := by
  induction n generalizing a k with
  | zero => simp [chars, Nat.le_zero.mp within]
  | succ n ih =>
    cases k with
    | zero => simp [chars]
    | succ k =>
      simp only [chars]
      split
      · rfl
      · rw [List.take_succ_cons, ih (by omega)]

/-- A NUL at the last place makes the last place irrelevant. -/
theorem chars_succ_of_nul (nul : m (a + n) = 0) : chars m a (n + 1) = chars m a n := by
  induction n generalizing a with
  | zero =>
    have first : m a = 0 := nul
    simp [chars, first]
  | succ n ih =>
    have rest : chars m (a + 1) (n + 1) = chars m (a + 1) n := ih (by rw [← nul]; congr 1; omega)
    change (if m a = 0 then [] else m a :: chars m (a + 1) (n + 1)) =
      if m a = 0 then [] else m a :: chars m (a + 1) n
    rw [rest]

theorem cstr_apply_of_lt (within : k < name.length) : cstr name tail k = name[k] := dif_pos within

@[simp] theorem cstr_length : cstr name tail name.length = 0 := by simp [cstr]

theorem chars_cstr_drop (clean : (0 : UInt8) ∉ name) (within : a ≤ name.length) :
    chars (cstr name tail) a n = (name.drop a).take n := by
  induction n generalizing a with
  | zero => simp [chars]
  | succ n ih =>
    rcases Nat.lt_or_eq_of_le within with inside | atEnd
    · have nonzero : name[a] ≠ 0 := fun h => clean (h ▸ List.getElem_mem inside)
      rw [chars, cstr_apply_of_lt inside, if_neg nonzero, ih inside,
        List.drop_eq_getElem_cons inside, List.take_succ_cons]
    · subst atEnd
      simp [chars]

/-- The comparison sees no more of a string than its first `n` characters. -/
theorem chars_cstr (clean : (0 : UInt8) ∉ name) : chars (cstr name tail) 0 n = name.take n := by
  simpa using chars_cstr_drop clean (Nat.zero_le _)

end Bytes
