import Sfs.Stream

namespace Sfs

/-- `sfs_init`, on a disk file of any content. -/
def sfsInit (disk : Bytes) : State := inodeInit (freeBlockInit (boot disk))

/-- `statbuf`: `st_mode`, `st_nlink`, `st_blocks` and `st_size`. -/
def inodeGetAttr (s : State) (inum : Nat) : Nat × Nat × Nat × Nat :=
  let x := inodeLoad s inum
  if isdir x = 1 then (0o40755, nlink x, 0, size x) else (0o100644, nlink x, size x, fsize x)

def sfsGetattr (s : State) (path : CPath) : (Int × Nat × Nat × Nat × Nat) × State :=
  let found := pathToInum s path
  if found.1.inum < 0 then ((-ENOENT, 0, 0, 0, 0), found.2)
  else ((0, inodeGetAttr found.2 (ushort found.1.inum)), found.2)

/-- The tail of `sfs_create` and `sfs_mkdir`: the new entry, and its removal
when an error is pending. -/
def sfsLink (s : State) (inum pInum : Int) (filename : Bytes) : Int × State :=
  let s := dnodeAppend s pInum (diEntC filename (ushort inum))
  let popped := errnoPop s
  if popped.1 < 0 then
    let s := dnodeRemove popped.2 pInum filename
    (popped.1, freeInodePush s (ushort inum))
  else popped

/-- `tail` is the memory behind the path, of which `di_ent_c` copies some
bytes when the name is short. -/
def sfsCreate (s : State) (path : CPath) (tail : Bytes) : Int × State :=
  let filename := Bytes.cstr (basename path) tail
  let found := pathToInum s path
  if found.1.inum > 0 then (-EEXIST, found.2)
  else
    let inum := freeInodePop found.2
    let s := fnodeInit inum.2 inum.1 (ushort found.1.parent)
    sfsLink s inum.1 found.1.parent filename

def sfsUnlink (s : State) (path : CPath) (tail : Bytes) : Int × State :=
  let filename := Bytes.cstr (basename path) tail
  let found := pathToInum s path
  let inum := found.1.inum
  if inum < 0 then (-ENOENT, found.2)
  else
    let s := fstreamFree found.2 inum 0
    let s := fnodeListingSet s (ushort inum) 0
    let s := freeInodePush s (ushort inum)
    (0, dnodeRemove s found.1.parent filename)

/-- `sfs_open` and `sfs_opendir`. -/
def sfsOpen (s : State) (path : CPath) : Int × State :=
  let found := pathToInum s path
  (if found.1.inum < 0 then -ENOENT else 0, found.2)

def sfsRead (s : State) (path : CPath) (size offset : Nat) : ReadResult × State :=
  let found := pathToInum s path
  if found.1.inum < 0 then (⟨-ENOENT, []⟩, found.2)
  else fstreamRead found.2 found.1.inum (int32 size) (int32 offset)

def sfsWrite (s : State) (path : CPath) (buf : Bytes) (size offset : Nat) : Int × State :=
  let found := pathToInum s path
  if found.1.inum < 0 then (-ENOENT, found.2)
  else
    let written := fstreamWrite found.2 found.1.inum buf (int32 size) (int32 offset)
    if written.1 < 0 then
      let s := (errnoPop (freeInodePop written.2).2).2
      (written.1, (errnoPop (freeBlockPop s).2).2)
    else written

/-- The loop that extends the block list, from index `i`. -/
def growBlocks (s : State) (i : Int) : Nat → State
  | 0 => s
  | n + 1 =>
    let blknum := freeBlockAllocate s none
    growBlocks (fSet blknum.2 i blknum.1) (i + 1) n

def sfsTruncate (s : State) (path : CPath) (offset : Nat) : Int × State :=
  let found := pathToInum s path
  let inum := found.1.inum
  let fsize := int32 offset
  let newBSize := int32 (offset / BLOCK_SIZE + 1 : Nat)
  if inum < 0 then (-ENOENT, found.2)
  else
    let listed := fnodeListing found.2 (ushort inum)
    let s := growBlocks listed.2 listed.1 (newBSize - listed.1).toNat
    let s := fstreamFree s inum newBSize
    let s := fnodeListingSet s (ushort inum) newBSize
    (0, inodeSetAttrUpc s (ushort inum) fsize)

/-- What `path_basename` does to a buffer of 14 bytes. -/
def pathBasename (s : State) (path : CPath) : State := s.fault ((basename path).length ≥ 14)

/-- `tail` is what the buffer `filename` holds behind the name. -/
def sfsMkdir (s : State) (path : CPath) (tail : Bytes) : Int × State :=
  let filename := Bytes.cstr (basename path) tail
  let found := pathToInum (pathBasename s path) path
  if found.1.inum > 0 then (-EEXIST, found.2)
  else
    let inum := freeInodePop found.2
    let s := dnodeInit inum.2 inum.1 (ushort found.1.parent)
    sfsLink s inum.1 found.1.parent filename

def sfsRmdir (s : State) (path : CPath) (tail : Bytes) : Int × State :=
  let filename := Bytes.cstr (basename path) tail
  let found := pathToInum (pathBasename s path) path
  if found.1.inum < 0 then (-ENOENT, found.2)
  else
    let s := dnodeListingSet found.2 (ushort found.1.inum) 0
    (0, dnodeRemove s found.1.parent filename)

/-- The result and the names given to `filler`. -/
def sfsReaddir (s : State) (path : CPath) : (Int × List (List UInt8)) × State :=
  let found := pathToInum s path
  if found.1.inum < 0 then ((-ENOENT, []), found.2)
  else
    let listed := dnodeListing found.2 (ushort found.1.inum)
    ((0, (List.range listed.1).map fun i => Bytes.chars listed.2.d (diEntSize * i) 14),
      listed.2.fault (listed.1 > DENTRY_MAX_SIZE))

end Sfs
