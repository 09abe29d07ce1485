/-!
# Sets of characters

A `CharSet` is a list of ranges of numbers, in rising order and with gaps between them. The numbers
are those of the characters, counted without the gap of the code points that are none, or those of
bytes; which of the two is up to the `Alphabet`.

* `insert`, `union`, `inter`, `diff`, `symmDiff` and `compl` compute with sets,
* `withOtherCase` adds the other case of the letters of ASCII,
* `contains` says whether a character is in a set.

A set also knows whether it is certain to hold with each letter its other case.
-/

namespace LoopTable

namespace Pattern

/-- What the elements of sets are. -/
inductive Alphabet
  /-- The characters of all scripts. -/
  | characters
  /-- Bytes. -/
  | bytes
  deriving DecidableEq

/-- The greatest number of an element. -/
def Alphabet.last : Alphabet → Nat
  | characters => 0x10f7ff
  | bytes => 0xff

/-- The number of a character among all of them. -/
def charNumber (c : Char) : Nat :=
  if c.toNat < 0xd800 then c.toNat else c.toNat - 0x800

/-- A set, as the ranges of the numbers in it. -/
structure CharSet where
  /-- The ranges, both ends included. -/
  ranges : List (Nat × Nat)
  /-- Whether it is certain to hold the other case of each letter in it. -/
  caseClosed : Bool
  deriving DecidableEq

/-- Adds a range to ranges, and joins it with those that it meets. -/
def insertRange (range : Nat × Nat) : List (Nat × Nat) → List (Nat × Nat)
  | [] => [range]
  | r :: rest =>
    if range.2 + 1 < r.1 then range :: r :: rest
    else if r.2 + 1 < range.1 then r :: insertRange range rest
    else insertRange (min range.1 r.1, max range.2 r.2) rest

/-- The ranges between ranges, from a number on and up to another. -/
def gaps (start last : Nat) : List (Nat × Nat) → List (Nat × Nat)
  | [] => if start ≤ last then [(start, last)] else []
  | r :: rest =>
    if start < r.1 then (start, r.1 - 1) :: gaps (r.2 + 1) last rest
    else gaps (r.2 + 1) last rest

/-- The ranges that two lists of ranges have in common. -/
def common (a b : List (Nat × Nat)) : List (Nat × Nat) :=
  a.flatMap fun r => b.filterMap fun s =>
    let low := max r.1 s.1
    let high := min r.2 s.2
    if low ≤ high then some (low, high) else none

namespace CharSet

/-- No element. -/
def empty : CharSet := ⟨[], true⟩

/-- The elements of a range. -/
def ofRange (low high : Nat) : CharSet := ⟨[(low, high)], false⟩

/-- One character. -/
def singleton (c : Char) : CharSet := ofRange (charNumber c) (charNumber c)

/-- The elements of some ranges. -/
def ofRanges (ranges : List (Nat × Nat)) : CharSet :=
  ⟨ranges.foldl (fun set r => insertRange r set) [], ranges.isEmpty⟩

/-- Adds the elements of a range. -/
def insert (low high : Nat) (set : CharSet) : CharSet :=
  ⟨insertRange (low, high) set.ranges, false⟩

/-- The elements of either set. -/
def union (a b : CharSet) : CharSet :=
  if b.ranges.isEmpty || a.ranges == b.ranges then a
  else ⟨b.ranges.foldl (fun set r => insertRange r set) a.ranges, a.caseClosed && b.caseClosed⟩

/-- The elements of both sets. -/
def inter (a b : CharSet) : CharSet :=
  if a.ranges.isEmpty then a
  else if b.ranges.isEmpty then empty
  else ⟨common a.ranges b.ranges, a.caseClosed && b.caseClosed⟩

/-- The elements of the first set that are not in the second. -/
def diff (alphabet : Alphabet) (a b : CharSet) : CharSet :=
  if a.ranges.isEmpty || b.ranges.isEmpty then a
  else ⟨common a.ranges (gaps 0 alphabet.last b.ranges), a.caseClosed && b.caseClosed⟩

/-- The elements of one set that are not in the other. -/
def symmDiff (alphabet : Alphabet) (a b : CharSet) : CharSet :=
  (a.union b).diff alphabet (a.inter b)

/-- The elements of the alphabet that are not in the set. -/
def compl (alphabet : Alphabet) (set : CharSet) : CharSet :=
  if set.ranges.isEmpty then ⟨[(0, alphabet.last)], true⟩
  else { set with ranges := gaps 0 alphabet.last set.ranges }

/-- The set with the other case of the letters of ASCII in it. -/
def withOtherCase (set : CharSet) : CharSet :=
  let lower := (common set.ranges [(0x41, 0x5a)]).map fun r => (r.1 + 32, r.2 + 32)
  let upper := (common set.ranges [(0x61, 0x7a)]).map fun r => (r.1 - 32, r.2 - 32)
  ⟨(lower ++ upper).foldl (fun ranges r => insertRange r ranges) set.ranges, true⟩

/-- Whether all elements are characters of ASCII. -/
def isAscii (set : CharSet) : Bool :=
  set.ranges.all fun r => r.2 < 0x80

/-- Whether a character is in a set. -/
def contains (set : CharSet) (c : Char) : Bool :=
  let n := charNumber c
  set.ranges.any fun r => r.1 ≤ n && n ≤ r.2

end CharSet

end Pattern

end LoopTable
