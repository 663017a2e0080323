import Sfs.Path

namespace Sfs

/-- `f[i]`. -/
def fGet (s : State) (i : Int) : Int := int32 (s.f.get32 (blknumSize * i.toNat))

def fBad (i : Int) : Bool := i < 0 || i ≥ FENTRY_MAX_SIZE

/-- `f[i] = blknum`, nothing outside the array. -/
def fSet (s : State) (i : Int) (blknum : Int) : State :=
  if fBad i then s.fault true
  else { s with f := s.f.put32 (blknumSize * i.toNat) (uint32 blknum) }

/-- The loop that reads blocks `i` up to `bEnd` into `blkbuf`, `n` rounds at most. -/
def readBlocks (s : State) (bSize bEnd i : Int) (blkbuf : Bytes) (ptr : Nat) : Nat → Bytes × State
  | 0 => (blkbuf, s)
  | n + 1 =>
    if i < bSize ∧ i < bEnd then
      readBlocks (s.fault (fBad i)) bSize bEnd (i + 1)
        (blkbuf.copy ptr (blockRead s (fGet s i)) 0 BLOCK_SIZE) (ptr + BLOCK_SIZE) n
    else (blkbuf, s)

/-- The result and the bytes put into the caller's buffer. -/
structure ReadResult where
  size : Int
  bytes : List UInt8

/-- `calloc` of a negative count does not return memory. -/
def fstreamRead (s : State) (inum size offset : Int) : ReadResult × State :=
  let listed := fnodeListing s (ushort inum)
  let fSize := int32 (inodeGetAttrUpc listed.2 (ushort inum)).2.2
  let bStart := offset.tdiv BLOCK_SIZE
  let bEnd := (int32 (offset + size)).tdiv BLOCK_SIZE + 1
  let s := listed.2.fault (bEnd < bStart || int32 (offset + size) ≠ offset + size || offset < 0)
  let blocks := readBlocks s listed.1 bEnd bStart Bytes.zero 0 (bEnd - bStart).toNat
  let size := if fSize - offset < size then fSize - offset else size
  let size := if size > 0 then size else 0
  (⟨size, (List.range size.toNat).map fun j => blocks.1 ((offset.tmod BLOCK_SIZE).toNat + j)⟩, blocks.2)

/-- The loop that writes blocks `i` up to `bEnd`. The result is the index it
stopped at. -/
def writeBlocks (s : State) (bSize bEnd i : Int) (blkbuf : Bytes) (ptr : Nat) : Nat → Int × State
  | 0 => (i, s)
  | n + 1 =>
    if i < bEnd ∧ i < FENTRY_MAX_SIZE then
      let page : Bytes := fun j => blkbuf (ptr + j)
      if i < bSize then
        let s := (s.fault (fBad i)).note (.streamWrite (fGet s i))
        writeBlocks (blockWrite s (fGet s i) page) bSize bEnd (i + 1) blkbuf (ptr + BLOCK_SIZE) n
      else
        let blknum := freeBlockAllocate s (some page)
        if blknum.1 < 0 then (i, blknum.2)
        else writeBlocks (fSet blknum.2 i blknum.1) bSize bEnd (i + 1) blkbuf (ptr + BLOCK_SIZE) n
    else (i, s)

def fstreamWrite (s : State) (inum : Int) (buf : Bytes) (size offset : Int) : Int × State :=
  let bStart := offset.tdiv BLOCK_SIZE
  let bEnd := (int32 (offset + size - 1)).tdiv BLOCK_SIZE + 1
  let listed := fnodeListing s (ushort inum)
  let bSize : Int := listed.1
  let fsize := int32 (inodeGetAttrUpc listed.2 (ushort inum)).2.2
  let s := listed.2.fault
    (bEnd < bStart || int32 (offset + size) ≠ offset + size || offset < 0 || size < 0)
  let rounds := (bEnd - bStart).toNat
  let blocks := readBlocks s bSize bEnd bStart Bytes.zero 0 rounds
  let blkbuf := blocks.1.copy (offset.tmod BLOCK_SIZE).toNat buf 0 size.toNat
  let written := writeBlocks blocks.2 bSize bEnd bStart blkbuf 0 rounds
  let bSize := if bSize > written.1 then bSize else written.1
  let fsize := if fsize > int32 (size + offset) then fsize else int32 (size + offset)
  let s := inodeSetAttrUpc written.2 (ushort inum) fsize
  let popped := errnoPop (fnodeListingSet s (ushort inum) bSize)
  (if popped.1 < 0 then popped.1 else size, popped.2)

/-- The loop over the blocks from index `i`, `n` of them. -/
def freeBlocks (s : State) (i : Int) : Nat → State
  | 0 => s
  | n + 1 => freeBlocks ((freeBlockPush s (fGet s i)).fault (fBad i)) (i + 1) n

def fstreamFree (s : State) (inum newBSize : Int) : State :=
  let listed := fnodeListing s (ushort inum)
  let s := freeBlocks listed.2 newBSize (listed.1 - newBSize).toNat
  fnodeListingSet s (ushort inum) newBSize

end Sfs
