import Sfs.Link
import Sfs.Unlink

namespace Sfs

/-- A request of the VFS. `tail` is what the memory behind the name holds. -/
inductive Op
  | create (path : CPath) (tail : Bytes)
  | mkdir (path : CPath) (tail : Bytes)
  | unlink (path : CPath) (tail : Bytes)
  | rmdir (path : CPath) (tail : Bytes)
  | write (path : CPath) (buf : Bytes) (size offset : Nat)
  | truncate (path : CPath) (offset : Nat)
  | getattr (path : CPath)
  | «open» (path : CPath)
  | read (path : CPath) (size offset : Nat)
  | readdir (path : CPath)

namespace Op

def path : Op → CPath
  | create path _ | mkdir path _ | unlink path _ | rmdir path _ | write path _ _ _ | truncate path _
  | getattr path | «open» path | read path _ _ | readdir path => path

/-- The result and the state after a request. -/
def run (s : State) : Op → Int × State
  | create path tail => sfsCreate s path tail
  | mkdir path tail => sfsMkdir s path tail
  | unlink path tail => sfsUnlink s path tail
  | rmdir path tail => sfsRmdir s path tail
  | write path buf size offset => sfsWrite s path buf size offset
  | truncate path offset => sfsTruncate s path offset
  | getattr path => ((sfsGetattr s path).1.1, (sfsGetattr s path).2)
  | «open» path => sfsOpen s path
  | read path size offset => ((sfsRead s path size offset).1.size, (sfsRead s path size offset).2)
  | readdir path => ((sfsReaddir s path).1.1, (sfsReaddir s path).2)

end Op

def step (s : State) (op : Op) : State := (op.run s).2

/-- The number of inodes that are marked free. -/
def spareInodes (s : State) : Nat := s.stores.pool.freeCount 1024

/-- The number of free blocks by the count in the superblock. -/
def spareBlocks (s : State) : Nat := (freeBlockSize s.stores.sup).toNat

/-- The pages that the listing of file `k` needs to get from its size to `n`. -/
def growNeed (s : State) (k n : Nat) : Nat :=
  pageCount (blknumSize * n) (blknumSize * size (s.stores.pool.cell k))

/-- The number of blocks that `sfs_truncate` asks for. -/
def newBSize (offset : Nat) : Int := int32 (offset / BLOCK_SIZE + 1 : Nat)

/-- The inodes that a request needs. -/
def inodeNeed (s : State) : Op → Nat
  | .create path _ | .mkdir path _ =>
    if (pathToInum s path).1.inum > 0 then 0 else linkNeed s.stores.pool (pathToInum s path).1.parent.toNat
  | .write path _ size offset =>
    let k := (pathToInum s path).1.inum.toNat
    growNeed s k (writeRows (Sfs.size (s.stores.pool.cell k)) (spareBlocks s) (int32 offset).toNat (int32 size).toNat)
  | .truncate path offset => growNeed s (pathToInum s path).1.inum.toNat (newBSize offset).toNat
  | _ => 0

/-- What the VFS promises of a path: it is absolute, its components are
neither empty nor one of the special names, and what is above it is a directory. -/
structure Proper (s : State) (path : CPath) (q : Path) : Prop where
  eq : path = render q
  plain : ∀ c ∈ q, Plain c
  parents : Parents s q

/-- What the VFS promises of a request, and names that fit into an entry. -/
def Vfs (s : State) : Op → Prop
  | .create path _ | .mkdir path _ => ∃ q c, Proper s path (q ++ [c]) ∧ c.length ≤ 13
  | .unlink path _ => ∃ q c, Proper s path (q ++ [c]) ∧ ¬ DirAt s (q ++ [c])
  | .rmdir path _ => ∃ q c, Proper s path (q ++ [c]) ∧ ¬ FileAt s (q ++ [c])
  | .write path _ _ _ | .truncate path _ => ∃ q, Proper s path q ∧ ¬ DirAt s q
  | _ => True

/-- A write that starts within the blocks of the file or right after them. -/
def WriteFits (rows : Nat) (size offset : Nat) : Prop :=
  0 ≤ int32 size ∧ 0 ≤ int32 offset ∧ int32 offset + int32 size < 2147483648 ∧ (int32 offset).toNat / 512 ≤ rows

/-- A size that needs no more blocks, or new ones for which the listing has
no page in use. -/
def TruncateFits (rows free : Nat) (offset : Nat) : Prop :=
  0 ≤ newBSize offset ∧ ((newBSize offset).toNat ≤ rows ∨
    (rows % 32 = 24 ∧ (newBSize offset).toNat ≤ 8344 ∧ (newBSize offset).toNat ≤ rows + free))

/-- The block list that a request sets can be set. -/
def Fits (s : State) : Op → Prop
  | .write path _ size offset => 0 < (pathToInum s path).1.inum →
    WriteFits (Sfs.size (s.stores.pool.cell (pathToInum s path).1.inum.toNat)) size offset
  | .truncate path offset => 0 < (pathToInum s path).1.inum →
    TruncateFits (size (s.stores.pool.cell (pathToInum s path).1.inum.toNat)) (spareBlocks s) offset
  | _ => True

/-- A request under which the invariants are kept. -/
structure Permit (s : State) (op : Op) : Prop where
  vfs : Vfs s op
  fits : Fits s op
  room : Room s.stores.pool (inodeNeed s op) (step s op)

end Sfs
