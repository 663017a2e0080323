import Mathlib.Data.List.Range
import Sfs.Disk

namespace Sfs

/-- An `int` field at offset `a`. -/
def getInt (m : Bytes) (a : Nat) : Int := int32 (m.get32 a)

def putInt (m : Bytes) (a : Nat) (v : Int) : Bytes := m.put32 a (uint32 v)

def freeBlockHead (superBlock : Bytes) : Int := getInt superBlock 0

def freeBlockSize (superBlock : Bytes) : Int := getInt superBlock 4

def freeBlockNext (block : Bytes) : Int := getInt block 0

def emptyBlk : Bytes := Bytes.zero

def freeblockRead (s : State) (blockNum : Int) : State := { s with blockBuf := blockRead s blockNum }

def freeblockWrite (s : State) (blockNum : Int) : State := blockWrite s blockNum s.blockBuf

def superblockWrite (s : State) : State :=
  let blockBuf := (blockRead s 0).copy 0 s.superBlockBuf 0 SUPERBLOCK_SIZE
  blockWrite { s with blockBuf } 0 blockBuf

def superblockRead (s : State) : State :=
  let blockBuf := blockRead s 0
  { s with blockBuf, superBlockBuf := blockBuf.take SUPERBLOCK_SIZE }

/-- Links block `i` to the next one. -/
def freeBlockLink (s : State) (i : Nat) : State :=
  freeblockWrite { s with blockBuf := putInt s.blockBuf 0 (i + 1) } i

/-- `n` rounds of the loop of `freeBlockInit`, the first for block `i`. -/
def freeBlockInitLoop (s : State) (i n : Nat) : State := (List.range' i n).foldl freeBlockLink s

def freeBlockInit (s : State) : State :=
  let superBlockBuf := putInt (putInt Bytes.zero 0 1) 4 (MAX_BLOCK_NUM - 1)
  let s := superblockWrite { s with blockBuf := Bytes.zero, superBlockBuf }
  let s := freeBlockInitLoop s 1 (MAX_BLOCK_NUM - 2)
  let s := { s with blockBuf := putInt s.blockBuf 0 (-1) }
  freeblockWrite s (MAX_BLOCK_NUM - 1)

/-- Unlinks block `blockNum`, which is the head of the list. -/
def freeBlockUnlink (s : State) (blockNum : Int) : State :=
  let s := freeblockRead s blockNum
  let superBlockBuf := putInt s.superBlockBuf 4 (freeBlockSize s.superBlockBuf - 1)
  superblockWrite { s with superBlockBuf := putInt superBlockBuf 0 (freeBlockNext s.blockBuf) }

def freeBlockPop (s : State) : Int × State :=
  let s := superblockRead s
  let blockNum := freeBlockHead s.superBlockBuf
  let s := if blockNum > 0 then freeBlockUnlink s blockNum else errnoPush s (-ENOSPC)
  (blockNum, s.note (.freeBlockPop blockNum))

/-- The new block holds `buff`, or zeros for a null pointer. -/
def freeBlockAllocate (s : State) (buff : Option Bytes) : Int × State :=
  let s := superblockRead s
  let blockNum := freeBlockHead s.superBlockBuf
  let s :=
    if blockNum > 0 then blockWrite (freeBlockUnlink s blockNum) blockNum (buff.getD emptyBlk)
    else errnoPush s (-ENOSPC)
  (blockNum, s.note (.freeBlockAllocate blockNum))

/-- The result, the new size of the list, is not used by any caller. -/
def freeBlockPush (s : State) (blockNum : Int) : State :=
  let s := superblockRead s
  let s := { s with blockBuf := putInt s.blockBuf 0 (freeBlockHead s.superBlockBuf) }
  let s := freeblockWrite s blockNum
  let superBlockBuf := putInt s.superBlockBuf 4 (freeBlockSize s.superBlockBuf + 1)
  superblockWrite { s with superBlockBuf := putInt superBlockBuf 0 blockNum }

end Sfs
