import Mathlib.Tactic.Linarith
import Sfs.Lib.Bytes

namespace Sfs

/-- Conversion to `int`; the compiled code wraps around. -/
def int32 (x : Int) : Int := Int.bmod x 4294967296

/-- Conversion to `blknum_t`. -/
def uint32 (x : Int) : Nat := (x % 4294967296).toNat

/-- Conversion to `ushort`. -/
def ushort (x : Int) : Nat := (x % 65536).toNat

def BLOCK_SIZE : Nat := 512
def INODE_SIZE : Nat := 128
def INODE_BLK_SIZE : Nat := 1024
def SUPERBLOCK_SIZE : Nat := 128
def MAX_BLOCK_NUM : Nat := 32768
def DENTRY_MAX_SIZE : Nat := 2086
def FENTRY_MAX_SIZE : Nat := 8344
def FCONTENT_MAX_SIZE : Nat := FENTRY_MAX_SIZE * BLOCK_SIZE
def PATH_MAX : Nat := 4096
def ENOENT : Int := 2
def EEXIST : Int := 17
def EFBIG : Int := 27
def ENOSPC : Int := 28

/-- The calls recorded in a state's trace. -/
inductive Call
  | inodeDump (inum : Int)
  | freeInodePop (result : Nat)
  | freeBlockPop (result : Int)
  | freeBlockAllocate (result : Int)
  | streamWrite (blockNum : Int)
  deriving DecidableEq

/-- The disk file and the static variables of the program. `_iblockbuf` is
left out: both of its users fill it before they read it. `ub` is set for good
once an index leaves its array, and `trace` lists the calls made so far,
latest first; the program has neither. -/
structure State where
  disk : Bytes
  superBlockBuf : Bytes
  blockBuf : Bytes
  d : Bytes
  f : Bytes
  errno : Int
  ub : Bool
  trace : List Call

/-- The statics before `sfs_init`, over a disk file of any content. -/
def boot (disk : Bytes) : State where
  disk := disk
  superBlockBuf := Bytes.zero
  blockBuf := Bytes.zero
  d := Bytes.zero
  f := Bytes.zero
  errno := 0
  ub := false
  trace := []

def State.note (s : State) (call : Call) : State := { s with trace := call :: s.trace }

def State.fault (s : State) (bad : Bool) : State := { s with ub := s.ub || bad }

def errnoPush (s : State) (err : Int) : State := { s with errno := err }

def errnoPop (s : State) : Int × State := (s.errno, { s with errno := 0 })

/-- The file offset of a block, an `int` product. -/
def blockOffset (blockNum : Int) : Int := int32 (blockNum * BLOCK_SIZE)

/-- `pread` fails on a negative offset and the buffer is then cleared. -/
def blockRead (s : State) (blockNum : Int) : Bytes :=
  if blockOffset blockNum < 0 then Bytes.zero
  else s.disk.window (blockOffset blockNum).toNat BLOCK_SIZE

def blockWrite (s : State) (blockNum : Int) (buf : Bytes) : State :=
  if blockOffset blockNum < 0 then s
  else { s with disk := s.disk.copy (blockOffset blockNum).toNat buf 0 BLOCK_SIZE }

theorem int32_of_mem {x : Int} (lower : -2147483648 ≤ x) (upper : x < 2147483648) : int32 x = x :=
  Int.bmod_eq_of_le (by omega) (by omega)

theorem blockOffset_nat {b : Nat} (within : b < 4194304) : blockOffset b = 512 * b := by
  simp only [blockOffset, BLOCK_SIZE, Nat.cast_ofNat]
  rw [int32_of_mem (by omega) (by omega), Int.mul_comm]

theorem blockRead_nat (s : State) {b : Nat} (within : b < 4194304) :
    blockRead s b = s.disk.window (512 * b) 512 := by
  have offset := blockOffset_nat within
  have positive : ¬ (512 * (b : Int) < 0) := by omega
  have value : (512 * (b : Int)).toNat = 512 * b := by omega
  simp only [blockRead, offset, positive, if_false, value, BLOCK_SIZE]

theorem blockWrite_nat (s : State) (buf : Bytes) {b : Nat} (within : b < 4194304) :
    blockWrite s b buf = { s with disk := s.disk.copy (512 * b) buf 0 512 } := by
  have offset := blockOffset_nat within
  have positive : ¬ (512 * (b : Int) < 0) := by omega
  have value : (512 * (b : Int)).toNat = 512 * b := by omega
  simp only [blockWrite, offset, positive, if_false, value, BLOCK_SIZE]

end Sfs
