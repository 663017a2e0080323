import Sfs.Listing

namespace Sfs

/-- A path is the characters before its NUL. -/
abbrev CPath := List UInt8

def slash : UInt8 := 0x2f

/-- `strrchr(path, '/')`, past the slash; the path itself without one. -/
def basename (path : CPath) : List UInt8 := (path.reverse.takeWhile (· ≠ slash)).reverse

/-- The loop of `pathToInumElem` over the entries left in `d`. -/
def elemLoop (d : Bytes) (path : Bytes) (i : Nat) : Nat → Int
  | 0 => -1
  | n + 1 =>
    if Bytes.strncmpEq path 0 d (diEntSize * i) 14 then diEntInum (diEnt d i)
    else elemLoop d path (i + 1) n

def pathToInumElem (s : State) (path : List UInt8) (destInum : Nat) : Int × State :=
  if destInum < 2 then (-1, s)
  else if path = [46] then (destInum, s)
  else
    let listed := dnodeListing s destInum
    let name := Bytes.cstr path Bytes.zero
    let bad := listed.1 > DENTRY_MAX_SIZE && elemLoop listed.2.d name 0 DENTRY_MAX_SIZE == -1
    (elemLoop listed.2.d name 0 listed.1, listed.2.fault bad)

/-- Where the tokenizer stands: the inode so far and the characters since the
last slash. -/
structure Walk where
  inum : Int
  head : List UInt8

/-- The tokenizer over the characters from `tail` on. -/
def pathWalk (s : State) (w : Walk) : List UInt8 → Walk × State
  | [] => (w, s)
  | c :: tail =>
    if c = slash then
      let found := pathToInumElem s w.head (ushort w.inum)
      pathWalk found.2 ⟨found.1, []⟩ tail
    else pathWalk s ⟨w.inum, w.head ++ [c]⟩ tail

/-- What `path_to_inum` returns and stores through `parent`. -/
structure Resolved where
  inum : Int
  parent : Int

/-- The copy of the path drops one trailing slash and is scanned from its
second character on. -/
def pathToInum (s : State) (path : CPath) : Resolved × State :=
  let s := s.fault (path.length ≥ PATH_MAX)
  let dup := if path.getLast? = some slash then path.dropLast else path
  let walked := pathWalk s ⟨2, []⟩ (dup.drop 1)
  if walked.1.head ≠ [] then
    let found := pathToInumElem walked.2 walked.1.head (ushort walked.1.inum)
    (⟨found.1, walked.1.inum⟩, found.2)
  else (⟨walked.1.inum, walked.1.inum⟩, walked.2)

end Sfs
