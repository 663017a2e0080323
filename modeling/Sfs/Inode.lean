import Mathlib.Logic.Function.Iterate
import Sfs.Lib.CString
import Sfs.FreeBlock

namespace Sfs

/-! `union inode_t` is 128 bytes under several readings. `metadata` takes the
first 16; a directory or file then has 96 bytes of entries, four numbers of
leaf pages and four of index pages; an index page is 64 numbers. -/

def ino (x : Bytes) : Nat := x.get16 0
def pno (x : Bytes) : Nat := x.get16 2
def size (x : Bytes) : Nat := x.get16 4
def nlink (x : Bytes) : Nat := x.get16 6
def fsize (x : Bytes) : Nat := x.get32 8
def isdir (x : Bytes) : UInt8 := x 12
/-- `dpnum[i]` and `fpnum[i]`. -/
def pnum (x : Bytes) (i : Nat) : Nat := x.get16 (112 + 2 * i)
/-- `ex_dpnum[i]` and `ex_fpnum[i]`. -/
def exPnum (x : Bytes) (i : Nat) : Nat := x.get16 (120 + 2 * i)
def exnum (x : Bytes) (j : Nat) : Nat := x.get16 (2 * j)

def setSize (x : Bytes) (v : Nat) : Bytes := x.put16 4 v
def setNlink (x : Bytes) (v : Nat) : Bytes := x.put16 6 v
def setFsize (x : Bytes) (v : Nat) : Bytes := x.put32 8 v
def setPnum (x : Bytes) (i v : Nat) : Bytes := x.put16 (112 + 2 * i) v
def setExPnum (x : Bytes) (i v : Nat) : Bytes := x.put16 (120 + 2 * i) v
def setExnum (x : Bytes) (j v : Nat) : Bytes := x.put16 (2 * j) v

/-- A negative number leaves the caller's buffer as it was; the only such
buffers are dumped to the same number, where `inodeDump` does nothing. -/
def inodeLoad (s : State) (inum : Int) : Bytes :=
  if inum < 0 then Bytes.zero
  else (blockRead s (inum / 4)).window (128 * (inum % 4).toNat) INODE_SIZE

def inodeDump (s : State) (inum : Int) (inode : Bytes) : State :=
  let s := s.note (.inodeDump inum)
  if inum < 0 then s
  else blockWrite s (inum / 4)
    ((blockRead s (inum / 4)).copy (128 * (inum % 4).toNat) inode 0 INODE_SIZE)

/-- `struct di_ent` with the bytes of `filename` up to its 13th. -/
def diEntC (filename : Bytes) (inum : Nat) : Bytes :=
  ((filename.take 14).put16 14 inum).copy 13 Bytes.zero 0 1

def dnodeInit (s : State) (inum pnum : Nat) : State :=
  let x := (Bytes.zero.put16 0 inum).put16 2 pnum
  let x := (setNlink (setSize x 2) 2).copy 12 (fun _ => 1) 0 1
  let dot := diEntC (Bytes.cstr [46] Bytes.zero) inum
  let dotdot := diEntC (Bytes.cstr [46, 46] Bytes.zero) pnum
  inodeDump s inum ((x.copy 16 dot 0 16).copy 32 dotdot 0 16)

def fnodeInit (s : State) (inum pnum : Nat) : State :=
  let x := (Bytes.zero.put16 0 inum).put16 2 pnum
  inodeDump s inum (setNlink x 1)

/-- The loop over the eight bits of one byte. `ptr` is a signed `char`, so
its shift copies the sign bit. -/
def popBit (byte ptr : UInt8) (j : Nat) : Nat → Option (Nat × UInt8)
  | 0 => none
  | n + 1 =>
    if byte &&& ptr ≠ 0 then some (j, byte &&& ~~~ptr)
    else popBit byte (ptr >>> 1 ||| 0x80) (j + 1) n

/-- The loop over the bytes of the bitmap, `n` of them from byte `i`. -/
def popByte (b : Bytes) (i : Nat) : Nat → Option (Nat × Bytes)
  | 0 => none
  | n + 1 =>
    match if b i ≠ 0 then popBit (b i) 0x80 0 8 else none with
    | some (j, byte) => some (8 * i + j, Function.update b i byte)
    | none => popByte b (i + 1) n

def freeInodePop (s : State) : Nat × State :=
  match popByte (blockRead s INODE_BLK_SIZE) 0 (INODE_BLK_SIZE / 8) with
  | some (inum, b) => (inum, (blockWrite s INODE_BLK_SIZE b).note (.freeInodePop inum))
  | none => (0, (errnoPush s (-ENOSPC)).note (.freeInodePop 0))

def freeInodePush (s : State) (inum : Nat) : State :=
  if inum < 2 then s
  else
    let b := blockRead s INODE_BLK_SIZE
    let byte := b (inum / 8) ||| (0x80 >>> UInt8.ofNat (inum % 8))
    (blockWrite s INODE_BLK_SIZE (Function.update b (inum / 8) byte)).fault (inum / 8 ≥ BLOCK_SIZE)

def inodeInitLoop (s : State) (n : Nat) : State := (fun s => (freeBlockPop s).2)^[n] s

def inodeInit (s : State) : State :=
  let s := inodeInitLoop s (INODE_BLK_SIZE - 1)
  let s := (freeBlockPop s).2
  let b : Bytes := Function.update (fun _ => 0xff) 0 0x1f
  dnodeInit (blockWrite s INODE_BLK_SIZE b) 2 2

/-- `st_mode`, `st_nlink` and `st_size`; a directory is told by a nonzero `isdir`. -/
def inodeGetAttrUpc (s : State) (inum : Nat) : Nat × Nat × Nat :=
  let x := inodeLoad s inum
  (if isdir x ≠ 0 then 0o40755 else 0o100644, nlink x, if isdir x ≠ 0 then size x else fsize x)

/-- `inode_set_attr_upc(inum, NULL, NULL, &st_size)`, its only use. -/
def inodeSetAttrUpc (s : State) (inum : Nat) (stSize : Int) : State :=
  let x := inodeLoad s inum
  inodeDump s inum <|
    if isdir x ≠ 0 then
      setSize x (ushort (if stSize > DENTRY_MAX_SIZE then DENTRY_MAX_SIZE else stSize))
    else setFsize x (uint32 (if stSize > FCONTENT_MAX_SIZE then FCONTENT_MAX_SIZE else stSize))

end Sfs
