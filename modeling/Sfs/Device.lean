import Sfs.Disk
import Sfs.Lib.Run

namespace Sfs

/-- The disk file, and `diskfile`. Past its end the file has zeros only. -/
structure Device where
  diskfile : Int
  /-- Whether the descriptor in `diskfile` is open. -/
  isOpen : Bool
  length : Nat
  bytes : Bytes
  past : ∀ o, length ≤ o → bytes o = 0

namespace Device

/-- A program that has not opened its disk file yet. -/
def start (length : Nat) (bytes : Bytes) : Device :=
  ⟨-1, false, length, bytes.take length, fun _ beyond => if_neg (Nat.not_lt.mpr beyond)⟩

/-- `result` is what `open` returns; on an error the program exits. -/
def diskOpen (d : Device) (result : Int) : Option Device :=
  if d.diskfile ≥ 0 then some d
  else if result < 0 then none
  else some { d with diskfile := result, isOpen := true }

def diskClose (d : Device) : Device := if d.diskfile ≥ 0 then { d with isOpen := false } else d

/-- The result, and the buffer with the bytes that there are. -/
def pread (d : Device) (buf : Bytes) (count : Nat) (offset : Int) : Int × Bytes :=
  if d.isOpen = false ∨ offset < 0 then (-1, buf)
  else ((min count (d.length - offset.toNat) : Nat), buf.copy 0 d.bytes offset.toNat (min count (d.length - offset.toNat)))

def pwrite (d : Device) (buf : Bytes) (count : Nat) (offset : Int) : Int × Device :=
  if d.isOpen = false ∨ offset < 0 then (-1, d)
  else (count, { d with
    length := max d.length (offset.toNat + count)
    bytes := d.bytes.copy offset.toNat buf 0 count
    past := fun o beyond => by
      rw [Bytes.copy_apply_of_not_mem (by omega)]
      exact d.past o (by omega) })

/-- The result and the buffer after `block_read`. -/
def blockRead (d : Device) (blockNum : Int) (buf : Bytes) : Int × Bytes :=
  let read := d.pread buf BLOCK_SIZE (blockOffset blockNum)
  if read.1 ≤ 0 then (read.1, read.2.copy 0 Bytes.zero 0 BLOCK_SIZE) else read

def blockWrite (d : Device) (blockNum : Int) (buf : Bytes) : Int × Device :=
  d.pwrite buf BLOCK_SIZE (blockOffset blockNum)

end Device

/-- A call that changes the disk file or its descriptor. -/
inductive DeviceOp
  | diskOpen (result : Int)
  | diskClose
  | blockWrite (b : Nat) (buf : Bytes)

/-- The calls from which the program returns, on blocks with an offset that is representable. -/
def DeviceOp.Returns (d : Device) : DeviceOp → Prop
  | diskOpen result => (d.diskOpen result).isSome
  | diskClose => True
  | blockWrite b _ => b < 4194304

def Device.step (d : Device) : DeviceOp → Device
  | .diskOpen result => (d.diskOpen result).getD d
  | .diskClose => d.diskClose
  | .blockWrite b buf => (d.blockWrite b buf).2

/-- What a disk can be used for. -/
inductive Phase
  | unopened
  | opened
  | closed
  deriving DecidableEq

/-- A store of blocks, each as it was written last. -/
structure Volume where
  phase : Phase
  block : Nat → Option Bytes

namespace Volume

/-- A disk closed once stays closed. -/
def apply (v : Volume) : DeviceOp → Volume
  | .diskOpen _ => match v.phase with
    | .unopened => { v with phase := .opened }
    | _ => v
  | .diskClose => match v.phase with
    | .opened => { v with phase := .closed }
    | _ => v
  | .blockWrite b buf => match v.phase with
    | .opened => { v with block := Function.update v.block b (some (buf.take BLOCK_SIZE)) }
    | _ => v

/-- The whole blocks of a file. -/
def ofFile (length : Nat) (bytes : Bytes) : Volume :=
  ⟨.unopened, fun b => if 512 * b < length then some (bytes.window (512 * b) 512) else none⟩

end Volume

/-- The result of reading block `b`, and the block in the buffer. -/
inductive Volume.Reads (v : Volume) (b : Nat) : Int → Bytes → Prop
  | whole : v.phase = .opened → (∃ c, b ≤ c ∧ v.block c ≠ none) → Reads v b BLOCK_SIZE ((v.block b).getD Bytes.zero)
  | untouched : v.phase = .opened → (∀ c, b ≤ c → v.block c = none) → Reads v b 0 Bytes.zero
  | failed : v.phase ≠ .opened → Reads v b (-1) Bytes.zero

/-- The disk file holds the blocks of the volume. -/
structure Backed (d : Device) (v : Volume) : Prop where
  whole : 512 ∣ d.length
  unopened : v.phase = .unopened ↔ d.diskfile < 0
  live : v.phase = .opened ↔ d.isOpen = true
  block : ∀ b, (v.block b).getD Bytes.zero = d.bytes.window (512 * b) 512
  within : ∀ b, 512 * b < d.length ↔ ∃ c, b ≤ c ∧ v.block c ≠ none

variable {d : Device} {v : Volume} {b length : Nat} {buf bytes : Bytes} {op : DeviceOp} {ops : List DeviceOp} {result : Int}

theorem backed_start (whole : 512 ∣ length) : Backed (.start length bytes) (.ofFile length bytes) where
  whole := whole
  unopened := by simp [Device.start, Volume.ofFile]
  live := by simp [Device.start, Volume.ofFile]
  block b := by
    simp only [Device.start, Volume.ofFile]
    split
    next inside =>
      refine Bytes.window_congr fun i hi => ?_
      rw [Bytes.take_apply_of_lt (by omega)]
    next outside =>
      funext i
      rw [Bytes.window, Bytes.take]
      split
      · exact (Bytes.take_apply_of_le (by omega)).symm
      · rfl
  within b := by
    simp only [Device.start, Volume.ofFile]
    constructor
    · intro inside
      exact ⟨b, le_rfl, by rw [if_pos inside]; exact Option.some_ne_none _⟩
    · rintro ⟨c, above, there⟩
      have inside : 512 * c < length := by
        by_contra outside
        exact there (if_neg outside)
      omega

theorem Volume.apply_blockWrite (v : Volume) (phase : v.phase = .opened) : (v.apply (.blockWrite b buf)).phase = .opened ∧
    (v.apply (.blockWrite b buf)).block b = some (buf.take BLOCK_SIZE) ∧
      ∀ c, c ≠ b → (v.apply (.blockWrite b buf)).block c = v.block c := by
  simp only [Volume.apply, phase]
  exact ⟨trivial, Function.update_self .., fun c ne => Function.update_of_ne ne ..⟩

/-- A read of an open file gives the bytes that are there, or zeros past the end. -/
theorem Device.blockRead_spec (d : Device) (buf : Bytes) (isOpen : d.isOpen = true) (whole : 512 ∣ d.length)
    (small : b < 4194304) :
    (d.blockRead b buf).1 = (if 512 * b < d.length then BLOCK_SIZE else 0 : Nat) ∧
      (d.blockRead b buf).2.take BLOCK_SIZE = d.bytes.window (512 * b) 512 := by
  have start : (512 * (b : Int)).toNat = 512 * b := by omega
  have fine : ¬ (d.isOpen = false ∨ 512 * (b : Int) < 0) := by
    rw [isOpen]
    simp
  rw [Device.blockRead, Device.pread, blockOffset_nat small, start, if_neg fine, BLOCK_SIZE]
  by_cases inside : 512 * b < d.length
  · have full : min 512 (d.length - 512 * b) = 512 := by omega
    have positive : ¬ ((512 : Nat) : Int) ≤ 0 := by decide
    simp only [full, positive, if_false, if_pos inside]
    refine ⟨trivial, Bytes.take_congr fun i hi => ?_⟩
    rw [Bytes.copy_apply_of_mem (by omega) (by omega), Nat.sub_zero]
  · have none : min 512 (d.length - 512 * b) = 0 := by omega
    simp only [none, Nat.cast_zero, le_refl, if_true, if_neg inside]
    refine ⟨trivial, Bytes.take_congr fun i hi => ?_⟩
    rw [Bytes.copy_apply_of_mem (by omega) (by omega), d.past _ (by omega)]
    rfl

/-- A read of a file that is not open clears the buffer. -/
theorem Device.blockRead_closed (d : Device) (buf : Bytes) (closed : d.isOpen = false) (blockNum : Int) :
    (d.blockRead blockNum buf).1 = -1 ∧ (d.blockRead blockNum buf).2.take BLOCK_SIZE = Bytes.zero := by
  have fails : d.isOpen = false ∨ blockOffset blockNum < 0 := Or.inl closed
  have negative : (-1 : Int) ≤ 0 := by decide
  simp only [Device.blockRead, Device.pread, if_pos fails, negative, if_true]
  refine ⟨trivial, ?_⟩
  funext i
  rw [Bytes.take]
  split
  · exact Bytes.copy_apply_of_mem (by omega) (by omega)
  · rfl

/-- What a write to an open file does. -/
theorem Device.pwrite_spec (d : Device) (buf : Bytes) (count offset : Nat) (isOpen : d.isOpen = true) :
    (d.pwrite buf count offset).1 = count ∧ (d.pwrite buf count offset).2.length = max d.length (offset + count) ∧
      (d.pwrite buf count offset).2.bytes = d.bytes.copy offset buf 0 count ∧
      (d.pwrite buf count offset).2.diskfile = d.diskfile ∧ (d.pwrite buf count offset).2.isOpen = d.isOpen := by
  have fine : ¬ (d.isOpen = false ∨ (offset : Int) < 0) := by
    rw [isOpen]
    simp
  rw [Device.pwrite, if_neg fine]
  exact ⟨rfl, rfl, rfl, rfl, rfl⟩

namespace Backed

variable (backed : Backed d v)

include backed

theorem diskOpen (returns : (d.diskOpen result).isSome) : Backed ((d.diskOpen result).getD d) (v.apply (.diskOpen result)) := by
  obtain ⟨whole, unopened, live, block, within⟩ := backed
  rw [Device.diskOpen] at returns ⊢
  cases phase : v.phase with
  | unopened =>
    have closed : ¬ d.diskfile ≥ 0 := not_le.mpr (unopened.mp phase)
    rw [if_neg closed] at returns ⊢
    have positive : ¬ result < 0 := by
      intro negative
      rw [if_pos negative] at returns
      cases returns
    simp only [if_neg positive, Option.getD_some, Volume.apply, phase]
    exact ⟨whole, by simpa using positive, by simp, block, within⟩
  | opened | closed =>
    have known : d.diskfile ≥ 0 := by
      rw [phase] at unopened
      simpa using unopened
    simp only [if_pos known, Option.getD_some, Volume.apply, phase]
    exact ⟨whole, unopened, live, block, within⟩

theorem diskClose : Backed d.diskClose (v.apply .diskClose) := by
  obtain ⟨whole, unopened, live, block, within⟩ := backed
  rw [Device.diskClose]
  cases phase : v.phase with
  | unopened =>
    have never : ¬ d.diskfile ≥ 0 := not_le.mpr (unopened.mp phase)
    simp only [if_neg never, Volume.apply, phase]
    exact ⟨whole, unopened, live, block, within⟩
  | opened | closed =>
    have known : d.diskfile ≥ 0 := by
      rw [phase] at unopened
      simpa using unopened
    simp only [if_pos known, Volume.apply, phase]
    exact ⟨whole, by simpa [phase] using known, by simp [phase], block, within⟩

theorem blockWrite (small : b < 4194304) :
    (d.blockWrite b buf).1 = (if v.phase = .opened then 512 else -1) ∧
      Backed (d.blockWrite b buf).2 (v.apply (.blockWrite b buf)) := by
  obtain ⟨whole, unopened, live, block, within⟩ := backed
  by_cases phase : v.phase = .opened
  · have isOpen := live.mp phase
    obtain ⟨result, length', bytes', diskfile', isOpen'⟩ := d.pwrite_spec buf BLOCK_SIZE (512 * b) isOpen
    rw [Device.blockWrite, blockOffset_nat small]
    rw [show ((512 * b : Nat) : Int) = 512 * (b : Int) from rfl] at *
    generalize d.pwrite buf BLOCK_SIZE (512 * (b : Int)) = o at *
    have applied : (v.apply (.blockWrite b buf)).phase = .opened ∧ _ := v.apply_blockWrite phase
    obtain ⟨phase', self, other⟩ := applied
    generalize v.apply (.blockWrite b buf) = v' at *
    rw [if_pos phase]
    refine ⟨result, ?_, ?_, ?_, fun c => ?_, fun c => ?_⟩
    · rw [length', BLOCK_SIZE]
      rcases Nat.le_total d.length (512 * b + 512) with longer | shorter
      · rw [max_eq_right longer]
        omega
      · rwa [max_eq_left shorter]
    · rw [diskfile', phase', ← phase, unopened]
    · rw [isOpen', phase']
      simpa using isOpen
    · rw [bytes', BLOCK_SIZE]
      by_cases here : c = b
      · rw [here, self, Bytes.window_copy_self, Option.getD_some]
        exact Bytes.take_congr fun i _ => by rw [Nat.zero_add]
      · rw [other c here, Bytes.window_copy_of_disjoint (by omega), block]
    · rw [length', BLOCK_SIZE, lt_max_iff, within]
      constructor
      · rintro (⟨c', above, there⟩ | inside)
        · by_cases here : c' = b
          · exact ⟨b, here ▸ above, by rw [self]; exact Option.some_ne_none _⟩
          · exact ⟨c', above, by rwa [other c' here]⟩
        · exact ⟨b, by omega, by rw [self]; exact Option.some_ne_none _⟩
      · rintro ⟨c', above, there⟩
        by_cases here : c' = b
        · exact Or.inr (by omega)
        · exact Or.inl ⟨c', above, by rwa [other c' here] at there⟩
  · have closed : d.isOpen = false := Bool.eq_false_iff.mpr fun isOpen => phase (live.mpr isOpen)
    have same : v.apply (.blockWrite b buf) = v := by
      rw [Volume.apply]
      cases now : v.phase with
      | opened => exact absurd now phase
      | unopened | closed => rfl
    rw [Device.blockWrite, Device.pwrite, if_pos (Or.inl closed), if_neg phase, same]
    exact ⟨rfl, whole, unopened, live, block, within⟩

theorem step (returns : op.Returns d) : Backed (d.step op) (v.apply op) := by
  cases op with
  | diskOpen => exact backed.diskOpen returns
  | diskClose => exact backed.diskClose
  | blockWrite b buf => exact (backed.blockWrite returns).2

/-- A read gives what the volume has. -/
theorem blockRead (small : b < 4194304) :
    v.Reads b (d.blockRead b buf).1 ((d.blockRead b buf).2.take BLOCK_SIZE) := by
  obtain ⟨whole, unopened, live, block, within⟩ := backed
  by_cases phase : v.phase = .opened
  · obtain ⟨result, bytes⟩ := d.blockRead_spec buf (live.mp phase) whole small
    rw [result, bytes, ← block]
    by_cases inside : 512 * b < d.length
    · rw [if_pos inside]
      exact .whole phase ((within b).mp inside)
    · have none : ∀ c, b ≤ c → v.block c = none := fun c above => by
        by_contra there
        exact inside ((within b).mpr ⟨c, above, there⟩)
      rw [if_neg inside, none b le_rfl]
      exact .untouched phase none
  · have closed : d.isOpen = false := Bool.eq_false_iff.mpr fun isOpen => phase (live.mpr isOpen)
    obtain ⟨result, bytes⟩ := d.blockRead_closed buf closed b
    rw [result, bytes]
    exact .failed phase

end Backed

/-- Between its first `disk_open` and the next `disk_close` the disk file is a
store of blocks. Before and after that nothing is read and nothing is written,
and no second `disk_open` changes that. -/
theorem run_device (whole : 512 ∣ length) (run : Run Device.step (fun d op => op.Returns d) (.start length bytes) ops d)
    (small : b < 4194304) (buf : Bytes) :
    (ops.foldl Volume.apply (.ofFile length bytes)).Reads b (d.blockRead b buf).1 ((d.blockRead b buf).2.take BLOCK_SIZE) ∧
      (d.blockWrite b buf).1 = if (ops.foldl Volume.apply (.ofFile length bytes)).phase = .opened then 512 else -1 := by
  have backed : Backed d (ops.foldl Volume.apply (.ofFile length bytes)) := by
    induction run with
    | nil => exact backed_start whole
    | next _ returns ih =>
      rw [List.foldl_append]
      exact ih.step returns
  exact ⟨backed.blockRead small, (backed.blockWrite small).1⟩

/-- A disk file that is closed and opened once more is lost. -/
theorem run_device_reopened :
    let ops : List DeviceOp := [.diskOpen 3, .blockWrite 7 fun _ => 1, .diskClose, .diskOpen 4]
    let d := ops.foldl Device.step (.start 0 Bytes.zero)
    (ops.foldl Volume.apply (.ofFile 0 Bytes.zero)).Reads 7 (d.blockRead (7 : Nat) Bytes.zero).1
        ((d.blockRead (7 : Nat) Bytes.zero).2.take BLOCK_SIZE) ∧
      (d.blockWrite (7 : Nat) Bytes.zero).1 =
        if (ops.foldl Volume.apply (.ofFile 0 Bytes.zero)).phase = .opened then 512 else -1 := by
  intro ops d
  have small : 7 < 4194304 := by decide
  have opened : Run Device.step (fun d op => op.Returns d) (.start 0 Bytes.zero) ([] ++ [.diskOpen 3]) _ := .next .nil rfl
  have written : Run Device.step (fun d op => op.Returns d) (.start 0 Bytes.zero)
      ([.diskOpen 3] ++ [.blockWrite 7 fun _ => 1]) _ := .next opened small
  have closed : Run Device.step (fun d op => op.Returns d) (.start 0 Bytes.zero)
      ([.diskOpen 3, .blockWrite 7 fun _ => 1] ++ [.diskClose]) _ := .next written trivial
  have run : Run Device.step (fun d op => op.Returns d) (.start 0 Bytes.zero)
      ([.diskOpen 3, .blockWrite 7 fun _ => 1, .diskClose] ++ [.diskOpen 4]) _ := .next closed rfl
  exact run_device ⟨0, rfl⟩ run small Bytes.zero

/-- The disk file is open and holds what the model has as its disk. -/
structure Device.Mirrors (d : Device) (s : State) : Prop where
  isOpen : d.isOpen = true
  whole : 512 ∣ d.length
  same : d.bytes = s.disk

namespace Device.Mirrors

variable {s : State} (mirrors : d.Mirrors s)

include mirrors

/-- What is read of the file is what the model reads. -/
theorem blockRead (small : b < 4194304) : (d.blockRead b buf).2.take BLOCK_SIZE = Sfs.blockRead s b := by
  rw [blockRead_nat s small, ← mirrors.same]
  exact (d.blockRead_spec buf mirrors.isOpen mirrors.whole small).2

/-- What is written to the file is what the model writes. -/
theorem blockWrite (small : b < 4194304) : (d.blockWrite b buf).2.Mirrors (Sfs.blockWrite s b buf) := by
  obtain ⟨_, length, bytes, _, isOpen⟩ := d.pwrite_spec buf BLOCK_SIZE (512 * b) mirrors.isOpen
  have whole := mirrors.whole
  rw [Device.blockWrite, blockOffset_nat small, blockWrite_nat s buf small]
  rw [show ((512 * b : Nat) : Int) = 512 * (b : Int) from rfl] at *
  refine ⟨isOpen.trans mirrors.isOpen, ?_, ?_⟩
  · rw [length, BLOCK_SIZE]
    omega
  · rw [bytes, mirrors.same, BLOCK_SIZE]

end Device.Mirrors

end Sfs
