import LoopTable.Pattern.Tree
import LoopTable.Text.Character

/-!
# Reading a pattern

A `Cursor` stands in a pattern: it knows what is left to read and how much has been read. In a
spaced pattern white space and comments have no meaning between signs, and most steps of reading
pass over them. Reading gives a value with the place that it came to, or a flaw.
-/

namespace LoopTable

namespace Pattern

/-- A place in a pattern. -/
structure Cursor where
  /-- How many characters have been read. -/
  position : Nat
  /-- What is left to read. -/
  rest : List Char

namespace Cursor

/-- The empty stretch at the place. -/
def here (c : Cursor) : Span := ⟨c.position, c.position⟩

/-- The stretch of the next character. -/
def nextSpan (c : Cursor) : Span := ⟨c.position, c.position + 1⟩

/-- The stretch from a place ahead on. -/
def since (c : Cursor) (start : Nat) : Span := ⟨start, c.position⟩

/-- Behind the next so many characters. -/
def drop (c : Cursor) (n : Nat) : Cursor := ⟨c.position + n, c.rest.drop n⟩

/-- Behind the white space and comments in front of a sign. A comment ends with its line. -/
def skipFrom (position : Nat) (inComment : Bool) : List Char → Cursor
  | [] => ⟨position, []⟩
  | c :: rest =>
    if inComment then skipFrom (position + 1) (c != '\n') rest
    else if isSpace c then skipFrom (position + 1) false rest
    else if c == '#' then skipFrom (position + 1) true rest
    else ⟨position, c :: rest⟩

/-- In a spaced pattern, behind white space and comments. -/
def skip (spaced : Bool) (c : Cursor) : Cursor :=
  if spaced then skipFrom c.position false c.rest else c

/-- Behind the next character, and in a spaced pattern behind what has no meaning. -/
def next (spaced : Bool) (c : Cursor) : Cursor :=
  (c.drop 1).skip spaced

/-- The character behind the next one. In a spaced pattern it is the first that is neither white
space nor the sign of a comment, if there is one. -/
def second? (spaced : Bool) (c : Cursor) : Option Char :=
  let rest := c.rest.drop 1
  if spaced then
    let found := match rest.dropWhile isSpace with
      | '#' :: comment => comment.dropWhile isSpace
      | found => found
    found.head?.or rest.head?
  else
    rest.head?

/-- Reads characters of a kind, each with its position, and passes over what has no meaning behind
each: `gap` says whether something of that sort may follow, and whether it is in a comment. -/
def readFrom (spaced : Bool) (kind : Char → Bool) (position : Nat) (gap : Option Bool) :
    List Char → List (Char × Nat) × Cursor
  | [] => ([], ⟨position, []⟩)
  | c :: rest =>
    if gap == some true then readFrom spaced kind (position + 1) (some (c != '\n')) rest
    else if gap == some false && isSpace c then
      readFrom spaced kind (position + 1) (some false) rest
    else if gap == some false && c == '#' then readFrom spaced kind (position + 1) (some true) rest
    else if kind c then
      let gap := if spaced then some false else none
      let (others, after) := readFrom spaced kind (position + 1) gap rest
      ((c, position) :: others, after)
    else
      ([], ⟨position, c :: rest⟩)

/-- Reads all characters of a kind that follow, each with its position. -/
def readPlaced (spaced : Bool) (kind : Char → Bool) (c : Cursor) : List (Char × Nat) × Cursor :=
  readFrom spaced kind c.position none c.rest

/-- Reads all characters of a kind that follow. -/
def readWhile (spaced : Bool) (kind : Char → Bool) (c : Cursor) : List Char × Cursor :=
  let (placed, after) := c.readPlaced spaced kind
  (placed.map (·.1), after)

/-- Reads a decimal number below the limit of 32 bits, with white space around it. -/
def readDecimal (spaced : Bool) (c : Cursor) : Except Flaw Nat × Cursor :=
  let c := c.drop (c.rest.takeWhile isSpace).length
  let start := c.position
  let (digits, c) := c.readWhile spaced isDigit
  let span := c.since start
  let (_, c) := c.readWhile spaced isSpace
  let value := number 10 digits
  if digits.isEmpty then (fail .countMissing span, c)
  else if value < 4294967296 then (.ok value, c)
  else (fail .decimalTooBig span, c)

end Cursor

end Pattern

end LoopTable
