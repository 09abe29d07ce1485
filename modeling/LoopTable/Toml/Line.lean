import LoopTable.Text.Character

/-!
# Characters and lines of a configuration text

A reader takes what it reads from the front of a text and gives the rest. The functions here read
past what has no meaning of its own: blanks, comments and the ends of lines.
-/

namespace LoopTable.Toml

/-- Reads something from the front of a text and gives it with what follows, unless the text does
not start with such a thing. -/
abbrev Reader (α : Type) := List Char → Option (α × List Char)

/-- Blanks may stand between any two parts of a line. -/
def isBlank (c : Char) : Bool :=
  c == ' ' || c == '\t'

/-- Text is everything but control characters; a tab counts as text. -/
def isText (c : Char) : Bool :=
  c == '\t' || (decide (' ' ≤ c) && c != '\x7f')

/-- The text behind its leading blanks. -/
def skipBlanks (s : List Char) : List Char :=
  s.dropWhile isBlank

/-- The text behind a line end, if it starts with one. -/
def lineEnd? : List Char → Option (List Char)
  | '\n' :: rest => some rest
  | '\r' :: '\n' :: rest => some rest
  | _ => none

/-- The text behind a comment, if it starts with one. -/
def skipComment : List Char → List Char
  | '#' :: rest => rest.dropWhile isText
  | s => s

/-- The text behind the line, if nothing but blanks and a comment is left in it. -/
def endLine? (s : List Char) : Option (List Char) :=
  match skipComment (skipBlanks s) with
  | [] => some []
  | s => lineEnd? s

/-- The text behind blanks, comments and line ends, which may stand between the items of an
array. A comment has to end with its line. -/
def skipGap (inComment : Bool) : List Char → Option (List Char)
  | [] => if inComment then none else some []
  | '\n' :: rest => skipGap false rest
  | '\r' :: '\n' :: rest => skipGap false rest
  | c :: rest =>
    if inComment then
      if isText c then skipGap true rest else none
    else if isBlank c then
      skipGap false rest
    else if c == '#' then
      skipGap true rest
    else
      some (c :: rest)

end LoopTable.Toml
