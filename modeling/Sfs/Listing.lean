import Sfs.Inode

namespace Sfs

/-! The listing functions of files and directories are the same code over
entries of 4 and of 16 bytes. Pointers into the static buffers `f` and `d`
are byte offsets here: 96 bytes of entries in the inode, then 128 a page. -/

def blknumSize : Nat := 4
def diEntSize : Nat := 16

/-- The page at offset `ptr` of the buffer. -/
def pageOf (buf : Bytes) (ptr : Nat) : Bytes := buf.window ptr INODE_SIZE

/-- The loop over the leaf pages `page i`, `n` of them; it returns once `ptr`
has reached `ptrEnd`. -/
def listingPages (s : State) (page : Nat → Nat) (ptrEnd ptr i : Nat) (buf : Bytes) : Nat → Bytes
  | 0 => buf
  | n + 1 =>
    if ptr ≥ ptrEnd then buf
    else listingPages s page ptrEnd (ptr + 128) (i + 1)
      (buf.copy ptr (inodeLoad s (page i)) 0 128) n

/-- The loop over the index pages. -/
def listingIndex (s : State) (inode : Bytes) (ptrEnd ptr i : Nat) (buf : Bytes) : Nat → Bytes
  | 0 => buf
  | n + 1 =>
    if ptr ≥ ptrEnd then buf
    else listingIndex s inode ptrEnd (ptr + 8192) (i + 1)
      (listingPages s (exnum (inodeLoad s (exPnum inode i))) ptrEnd ptr 0 buf 64) n

/-- Fills the buffer with the entries of `inum`; the result has the size. -/
def listing (entry : Nat) (s : State) (inum : Nat) (buf : Bytes) : Nat × Bytes :=
  let inode := inodeLoad s inum
  let ptrEnd := entry * size inode
  let buf := buf.copy 0 inode 16 96
  let buf := listingPages s (pnum inode) ptrEnd 96 0 buf 4
  (size inode, listingIndex s inode ptrEnd 608 0 buf 4)

def dnodeListing (s : State) (inum : Nat) : Nat × State :=
  ((listing diEntSize s inum s.d).1, { s with d := (listing diEntSize s inum s.d).2 })

def fnodeListing (s : State) (inum : Nat) : Nat × State :=
  ((listing blknumSize s inum s.f).1, { s with f := (listing blknumSize s inum s.f).2 })

theorem dnodeListing_rows (s : State) (k : Nat) : (dnodeListing s k).1 = size (inodeLoad s k) := by
  simp only [dnodeListing, listing]

theorem dnodeListing_disk (s : State) (k : Nat) : (dnodeListing s k).2.disk = s.disk := by
  cases s
  rfl

theorem dnodeListing_d (s : State) (k : Nat) : (dnodeListing s k).2.d = (listing diEntSize s k s.d).2 := by
  rw [dnodeListing]

/-- The loop over the level-1 leaf pages. -/
def setPages (buf : Bytes) (ptrEnd cacheEnd : Nat) (s : State) (inode : Bytes) (ptr i : Nat) :
    Nat → State × Bytes
  | 0 => (s, inode)
  | n + 1 =>
    if ptr ≥ ptrEnd then
      let s := if ptr < cacheEnd then freeInodePush s (pnum inode i) else s
      setPages buf ptrEnd cacheEnd s inode (ptr + 128) (i + 1) n
    else if ptr ≥ cacheEnd then
      let inum := freeInodePop s
      let inode := setPnum inode i inum.1
      let s := inodeDump inum.2 (pnum inode i) (pageOf buf ptr)
      setPages buf ptrEnd cacheEnd s inode (ptr + 128) (i + 1) n
    else
      let s := inodeDump s (pnum inode i) (pageOf buf ptr)
      setPages buf ptrEnd cacheEnd s inode (ptr + 128) (i + 1) n

/-- The loop that releases the leaf pages of an index page. -/
def releaseLeaves (cacheEnd : Nat) (s : State) (lv1 : Bytes) (ptr j : Nat) : Nat → State
  | 0 => s
  | n + 1 =>
    let s := if ptr < cacheEnd then freeInodePush s (exnum lv1 j) else s
    releaseLeaves cacheEnd s lv1 (ptr + 128) (j + 1) n

/-- The loop that fills a new index page. -/
def newLeaves (buf : Bytes) (ptrEnd : Nat) (s : State) (lv1 : Bytes) (ptr j : Nat) :
    Nat → State × Bytes
  | 0 => (s, lv1)
  | n + 1 =>
    if ptr < ptrEnd then
      let inum := freeInodePop s
      let lv1 := setExnum lv1 j inum.1
      let s := inodeDump inum.2 (exnum lv1 j) (pageOf buf ptr)
      newLeaves buf ptrEnd s lv1 (ptr + 128) (j + 1) n
    else newLeaves buf ptrEnd s lv1 (ptr + 128) (j + 1) n

/-- The loop over an index page that was there before. Leaf pages at or past
`ptrEnd` stay as they are, also those that were in use. -/
def setLeaves (buf : Bytes) (ptrEnd cacheEnd : Nat) (s : State) (lv1 : Bytes) (ptr j : Nat) :
    Nat → State × Bytes
  | 0 => (s, lv1)
  | n + 1 =>
    if ptr < ptrEnd then
      if ptr ≥ cacheEnd then
        let inum := freeInodePop s
        let lv1 := setExnum lv1 j inum.1
        let s := inodeDump inum.2 (exnum lv1 j) (pageOf buf ptr)
        setLeaves buf ptrEnd cacheEnd s lv1 (ptr + 128) (j + 1) n
      else
        let s := inodeDump s (exnum lv1 j) (pageOf buf ptr)
        setLeaves buf ptrEnd cacheEnd s lv1 (ptr + 128) (j + 1) n
    else setLeaves buf ptrEnd cacheEnd s lv1 (ptr + 128) (j + 1) n

/-- The loop over the index pages. Where there is nothing to keep and nothing
to release, `ptr` is not moved on. -/
def setIndex (buf : Bytes) (ptrEnd cacheEnd : Nat) (s : State) (inode : Bytes) (ptr i : Nat) :
    Nat → State × Bytes
  | 0 => (s, inode)
  | n + 1 =>
    if ptr ≥ ptrEnd then
      if ptr < cacheEnd then
        let s := releaseLeaves cacheEnd s (inodeLoad s (exPnum inode i)) ptr 0 64
        let s := freeInodePush s (exPnum inode i)
        setIndex buf ptrEnd cacheEnd s inode (ptr + 8192) (i + 1) n
      else setIndex buf ptrEnd cacheEnd s inode ptr (i + 1) n
    else if ptr ≥ cacheEnd then
      let inum := freeInodePop s
      let inode := setExPnum inode i inum.1
      let lv1 := newLeaves buf ptrEnd inum.2 Bytes.zero ptr 0 64
      let s := inodeDump lv1.1 (exPnum inode i) lv1.2
      setIndex buf ptrEnd cacheEnd s inode (ptr + 8192) (i + 1) n
    else
      let lv1 := setLeaves buf ptrEnd cacheEnd s (inodeLoad s (exPnum inode i)) ptr 0 64
      let s := inodeDump lv1.1 (exPnum inode i) lv1.2
      setIndex buf ptrEnd cacheEnd s inode (ptr + 8192) (i + 1) n

/-- `newsize` is past the limit check of the caller. An end pointer before
the buffer compares like one at its start. -/
def listingSet (entry : Nat) (buf : Bytes) (s : State) (inum : Nat) (newsize : Int) : State :=
  let inode := inodeLoad s inum
  let cacheEnd := entry * size inode
  let ptrEnd := entry * newsize.toNat
  let inode := (setSize inode (ushort newsize)).copy 16 buf 0 96
  let first := setPages buf ptrEnd cacheEnd s inode 96 0 4
  let all := setIndex buf ptrEnd cacheEnd first.1 first.2 608 0 4
  inodeDump all.1 (ino all.2) all.2

def dnodeListingSet (s : State) (inum : Nat) (newsize : Int) : State :=
  if newsize ≥ DENTRY_MAX_SIZE then
    listingSet diEntSize s.d (errnoPush s (-EFBIG)) inum (DENTRY_MAX_SIZE - 1)
  else listingSet diEntSize s.d s inum newsize

def fnodeListingSet (s : State) (inum : Nat) (newsize : Int) : State :=
  if newsize > FENTRY_MAX_SIZE then
    listingSet blknumSize s.f (errnoPush s (-EFBIG)) inum FENTRY_MAX_SIZE
  else listingSet blknumSize s.f s inum newsize

/-- The directory entry at index `i` of the buffer. -/
def diEnt (d : Bytes) (i : Nat) : Bytes := d.window (diEntSize * i) diEntSize

def diEntInum (entry : Bytes) : Nat := entry.get16 14

/-- A negative `inum` is read as the `ushort` it converts to by the listing
functions, and ignored by `inodeDump`. -/
def dnodeAppend (s : State) (inum : Int) (newItem : Bytes) : State :=
  let listed := dnodeListing s (ushort inum)
  let s := listed.2.fault (listed.1 ≥ DENTRY_MAX_SIZE)
  let s := { s with d := s.d.copy (diEntSize * listed.1) newItem 0 diEntSize }
  let s := dnodeListingSet s (ushort inum) (listed.1 + 1)
  let x := inodeLoad s inum
  inodeDump s inum (setNlink x (ushort (nlink x + 1)))

/-- The loop of `dnodeRemove` from index `i`, with `n` entries left. The
directory is cut to `size - 1` entries at every hit. -/
def dnodeRemoveLoop (s : State) (inum : Int) (filename : Bytes) (size i : Nat) : Nat → State
  | 0 => s
  | n + 1 =>
    let s := s.fault (i ≥ DENTRY_MAX_SIZE)
    let s :=
      if Bytes.strncmpEq s.d (diEntSize * i) filename 0 13 then
        let s := { s with d := s.d.copy (diEntSize * i) (diEnt s.d (size - 1)) 0 diEntSize }
        let s := dnodeListingSet s (ushort inum) (size - 1)
        let x := inodeLoad s inum
        inodeDump s inum (setNlink x (ushort ((nlink x : Int) - 1)))
      else s
    dnodeRemoveLoop s inum filename size (i + 1) n

def dnodeRemove (s : State) (inum : Int) (filename : Bytes) : State :=
  let listed := dnodeListing s (ushort inum)
  dnodeRemoveLoop listed.2 inum filename listed.1 0 listed.1

end Sfs
