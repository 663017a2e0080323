import Sfs.Remove

namespace Sfs

variable {s : State} {p : Pool Bytes} {k q m i : Nat} {filename : Bytes} {c : List UInt8}

/-- Only 13 characters of a name are kept. -/
theorem chars_diEntC : Bytes.chars (diEntC filename q) 0 14 = Bytes.chars filename 0 13 := by
  have nul : diEntC filename q (0 + 13) = 0 := by
    rw [diEntC, Bytes.copy_apply_of_mem (by omega) (by omega)]
    rfl
  rw [Bytes.chars_succ_of_nul nul]
  refine Bytes.chars_congr fun j hj => ?_
  rw [diEntC, Bytes.copy_apply_of_not_mem (by omega), Bytes.put16_apply_of_ne (by omega),
    Bytes.take_apply_of_lt (by omega)]

theorem get16_diEntC (filename : Bytes) : (diEntC filename q).get16 14 = q % 65536 := by
  rw [diEntC, Bytes.get16_copy_of_not_mem (by omega), Bytes.get16_put16_self]

/-- The inode that `dnode_init` writes. -/
def dnodeImage (inum pnum : Nat) : Bytes :=
  let x := (Bytes.zero.put16 0 inum).put16 2 pnum
  let x := (setNlink (setSize x 2) 2).copy 12 (fun _ => 1) 0 1
  let dot := diEntC (Bytes.cstr [46] Bytes.zero) inum
  let dotdot := diEntC (Bytes.cstr [46, 46] Bytes.zero) pnum
  (x.copy 16 dot 0 16).copy 32 dotdot 0 16

theorem dnodeInit_eq : dnodeInit s q m = inodeDump s q (dnodeImage q m) := rfl

/-- The inode that `fnode_init` writes. -/
def fnodeImage (inum pnum : Nat) : Bytes := setNlink ((Bytes.zero.put16 0 inum).put16 2 pnum) 1

theorem fnodeInit_eq : fnodeInit s q m = inodeDump s q (fnodeImage q m) := rfl

theorem ino_fnodeImage (within : q < 65536) : ino (fnodeImage q m) = q := by
  rw [ino, fnodeImage, setNlink, Bytes.get16_put16_of_ne (by omega), Bytes.get16_put16_of_ne (by omega),
    Bytes.get16_put16_self, Nat.mod_eq_of_lt within]

theorem pno_fnodeImage (small : m < 65536) : pno (fnodeImage q m) = m := by
  rw [pno, fnodeImage, setNlink, Bytes.get16_put16_of_ne (by omega), Bytes.get16_put16_self, Nat.mod_eq_of_lt small]

theorem fnodeImage_apply (past : 8 ≤ i) : fnodeImage q m i = 0 := by
  rw [fnodeImage, setNlink, Bytes.put16_apply_of_ne (by omega), Bytes.put16_apply_of_ne (by omega),
    Bytes.put16_apply_of_ne (by omega)]
  rfl

theorem size_fnodeImage : size (fnodeImage q m) = 0 := by
  rw [size, fnodeImage, setNlink, Bytes.get16_put16_of_ne (by omega), Bytes.get16_put16_of_ne (by omega),
    Bytes.get16_put16_of_ne (by omega), Bytes.get16_zero]

theorem isdir_fnodeImage : isdir (fnodeImage q m) = 0 := fnodeImage_apply (by omega)

theorem dnodeImage_header (header : i < 12) :
    dnodeImage q m i = setNlink (setSize ((Bytes.zero.put16 0 q).put16 2 m) 2) 2 i := by
  rw [dnodeImage, Bytes.copy_apply_of_not_mem (by omega), Bytes.copy_apply_of_not_mem (by omega),
    Bytes.copy_apply_of_not_mem (by omega)]

theorem ino_dnodeImage (within : q < 65536) : ino (dnodeImage q m) = q := by
  have same : ino (dnodeImage q m) = ino (setNlink (setSize ((Bytes.zero.put16 0 q).put16 2 m) 2) 2) :=
    Bytes.get16_congr (dnodeImage_header (by omega)) (dnodeImage_header (by omega))
  rw [same, ino, setNlink, setSize, Bytes.get16_put16_of_ne (by omega), Bytes.get16_put16_of_ne (by omega),
    Bytes.get16_put16_of_ne (by omega), Bytes.get16_put16_self, Nat.mod_eq_of_lt within]

theorem pno_dnodeImage (small : m < 65536) : pno (dnodeImage q m) = m := by
  have same : pno (dnodeImage q m) = pno (setNlink (setSize ((Bytes.zero.put16 0 q).put16 2 m) 2) 2) :=
    Bytes.get16_congr (dnodeImage_header (by omega)) (dnodeImage_header (by omega))
  rw [same, pno, setNlink, setSize, Bytes.get16_put16_of_ne (by omega), Bytes.get16_put16_of_ne (by omega),
    Bytes.get16_put16_self, Nat.mod_eq_of_lt small]

theorem size_dnodeImage : size (dnodeImage q m) = 2 := by
  have same : size (dnodeImage q m) = size (setNlink (setSize ((Bytes.zero.put16 0 q).put16 2 m) 2) 2) :=
    Bytes.get16_congr (dnodeImage_header (by omega)) (dnodeImage_header (by omega))
  rw [same, size, setNlink, setSize, Bytes.get16_put16_of_ne (by omega), Bytes.get16_put16_self]

theorem isdir_dnodeImage : isdir (dnodeImage q m) = 1 := by
  rw [isdir, dnodeImage, Bytes.copy_apply_of_not_mem (by omega), Bytes.copy_apply_of_not_mem (by omega),
    Bytes.copy_apply_of_mem (by omega) (by omega)]

/-- The entries of a new directory. -/
theorem dnodeImage_entry {j : Nat} (within : j < 16) :
    dnodeImage q m (16 + j) = diEntC (Bytes.cstr [46] Bytes.zero) q j ∧
      dnodeImage q m (32 + j) = diEntC (Bytes.cstr [46, 46] Bytes.zero) m j := by
  constructor
  · rw [dnodeImage, Bytes.copy_apply_of_not_mem (by omega), Bytes.copy_apply_of_mem (by omega) (by omega)]
    congr 1
    omega
  · rw [dnodeImage, Bytes.copy_apply_of_mem (by omega) (by omega)]
    congr 1
    omega

theorem bytesOf_inline {o : Nat} (within : o < 96) : bytesOf p k o = p.cell k (16 + o) := if_pos within

theorem dirOk_dnodeImage (image : p.cell k = (dnodeImage q m).take 128) : DirOk p k := by
  have byte : ∀ j < 32, bytesOf p k j = dnodeImage q m (16 + j) := fun j hj => by
    rw [bytesOf_inline (by omega), image, Bytes.take_apply_of_lt (by omega)]
  have dot : entName p k 0 = [46] := by
    have chars : entName p k 0 = Bytes.chars (diEntC (Bytes.cstr [46] Bytes.zero) q) 0 14 :=
      Bytes.chars_congr fun j hj => by
        rw [Nat.mul_zero, Nat.zero_add, byte j (by omega), (dnodeImage_entry (by omega)).1]
    rw [chars, chars_diEntC, Bytes.chars_cstr (by decide)]
    rfl
  have dotdot : entName p k 1 = [46, 46] := by
    have chars : entName p k 1 = Bytes.chars (diEntC (Bytes.cstr [46, 46] Bytes.zero) m) 0 14 :=
      Bytes.chars_congr fun j hj => by
        rw [diEntSize, Nat.zero_add, byte (16 * 1 + j) (by omega), ← (dnodeImage_entry (q := q) (by omega)).2]
        congr 1
        omega
    rw [chars, chars_diEntC, Bytes.chars_cstr (by decide)]
    rfl
  have two : size (p.cell k) = 2 := by
    rw [image, size, Bytes.get16_take (by omega)]
    exact size_dnodeImage
  have names : ∀ i < 2, entName p k i = if i = 0 then [46] else [46, 46] := by
    intro i hi
    split
    next first => rw [first, dot]
    next second => rw [show i = 1 by omega, dotdot]
  refine ⟨?_, by omega, dot, dotdot, fun i hi j hj same => ?_, fun i hi => ?_⟩
  · have same : isdir (p.cell k) = isdir (dnodeImage q m) := by
      rw [image]
      exact Bytes.take_apply_of_lt (by omega)
    rw [same, isdir_dnodeImage]
    decide
  · have hi' : i < 2 := two ▸ hi
    have hj' : j < 2 := two ▸ hj
    replace same : entName p k i = entName p k j := same
    rw [names i hi', names j hj'] at same
    split at same <;> split at same
    · omega
    · simp at same
    · simp at same
    · omega
  · rw [names i (by omega)]
    split <;> simp

end Sfs
