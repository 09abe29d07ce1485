import LoopTable.Pattern.Cursor

/-!
# Escapes

A backslash and what follows it stand for a character, for a class of characters or for a look at
the place.

* `readEscape` reads any of them.
-/

namespace LoopTable

namespace Pattern

/-- The characters that mean something in a pattern. -/
def isSign (c : Char) : Bool :=
  "\\.+*?()|[]\x7b\x7d^$#&-~".toList.contains c

/-- A character that stands for itself behind a backslash: all of ASCII but letters, digits and the
two that look for the ends of words. -/
def isEscapable (c : Char) : Bool :=
  isSign c || (decide (c.toNat < 0x80) && !c.isAlphanum && c != '<' && c != '>')

/-- The character that a letter behind a backslash stands for. -/
def controlCharacter? : Char → Option Char
  | 'a' => some '\x07'
  | 'f' => some '\x0c'
  | 't' => some '\t'
  | 'n' => some '\n'
  | 'r' => some '\r'
  | 'v' => some '\x0b'
  | _ => none

/-- The class that a letter behind a backslash names; capitals negate. -/
def letterClass? : Char → Option (LetterClass × Bool)
  | 'd' => some (.digit, false)
  | 's' => some (.space, false)
  | 'w' => some (.word, false)
  | 'D' => some (.digit, true)
  | 'S' => some (.space, true)
  | 'W' => some (.word, true)
  | _ => none

/-- The look that a letter or bracket behind a backslash stands for. -/
def anchor? : Char → Option Anchor
  | 'A' => some .textStart
  | 'z' => some .textEnd
  | 'B' => some .noWordEdge
  | '<' => some .wordStart
  | '>' => some .wordEnd
  | _ => none

/-! ## Characters by number -/

/-- Reads so many digits of base sixteen behind digits of this value. -/
def readHexDigits (spaced : Bool) (value : Nat) : Nat → Cursor → Except Flaw (Nat × Cursor)
  | 0, c => .ok (value, c)
  | n + 1, c =>
    match c.rest with
    | [] => fail .escapeEnds c.here
    | ch :: _ =>
      match hexDigit? ch with
      | none => fail .hexDigit c.nextSpan
      | some digit => readHexDigits spaced (16 * value + digit) n (c.next spaced)

/-- The literal for a number, which the stretch holds. -/
def literalOf (start : Nat) (asByte : Bool) (value : Nat) (digits : Span) (after : Cursor) :
    Except Flaw (Literal × Cursor) :=
  match character? value with
  | none => fail .hexNoCharacter digits
  | some char => .ok (⟨after.since start, char, asByte⟩, after)

/-- Reads a number between braces. -/
def readHexBraces (spaced : Bool) (start : Nat) (c : Cursor) : Except Flaw (Literal × Cursor) :=
  let (digits, stop) := (c.next spaced).readWhile spaced fun ch => (hexDigit? ch).isSome
  match stop.rest with
  | [] => fail .escapeEnds (stop.since c.position)
  | ch :: _ =>
    if ch != '}' then
      fail .hexDigit stop.nextSpan
    else
      let after := stop.next spaced
      if digits.isEmpty then fail .hexMissing (after.since c.position)
      else literalOf start false (number 16 digits) (stop.since (c.position + 1)) after

/-- Reads a number behind the letter for its count of digits. -/
def readHex (spaced : Bool) (start count : Nat) (c : Cursor) : Except Flaw (Literal × Cursor) :=
  let c := c.next spaced
  match c.rest with
  | [] => fail .escapeEnds c.here
  | '{' :: _ => readHexBraces spaced start c
  | _ => do
    let (value, after) ← readHexDigits spaced 0 count c
    literalOf start (count == 2) value (after.since c.position) after

/-! ## Properties -/

/-- Reads the name of a property, behind the letter that announces it. -/
def readProperty (spaced : Bool) (start : Nat) (c : Cursor) : Except Flaw (Property × Cursor) :=
  let c := c.next spaced
  match c.rest with
  | [] => fail .escapeEnds c.here
  | '{' :: _ =>
    let (name, stop) := (c.next spaced).readWhile spaced (· != '}')
    if stop.rest.isEmpty then
      fail .escapeEnds stop.here
    else
      let after := stop.drop 1
      .ok (⟨after.since start, name.any fun ch => ch == ':' || ch == '=', name⟩, after)
  | '\\' :: _ => fail .propertyName c.nextSpan
  | ch :: _ =>
    let after := c.next spaced
    .ok (⟨after.since start, false, [ch]⟩, after)

/-! ## Ends of words -/

/-- A character of the name of a look at a word. -/
def isLookName (c : Char) : Bool :=
  c == '-' || c.isAlpha

/-- The look of a name. -/
def wordLook? (name : List Char) : Option Anchor :=
  match String.ofList name with
  | "start" => some .wordStart
  | "end" => some .wordEnd
  | "start-half" => some .noWordBefore
  | "end-half" => some .noWordAfter
  | _ => none

/-- Reads what follows the sign for the ends of words. It may be a name in braces; braces with
something else in them are left for a count. -/
def readWordLook (spaced : Bool) (start : Nat) (c : Cursor) : Except Flaw (Anchor × Cursor) :=
  match c.rest with
  | '{' :: _ =>
    let content := c.next spaced
    match content.rest with
    | [] => fail .boundaryEnds (content.since start)
    | ch :: _ =>
      if isLookName ch then
        let (name, stop) := content.readWhile spaced isLookName
        match stop.rest with
        | '}' :: _ =>
          match wordLook? name with
          | some anchor => .ok (anchor, stop.drop 1)
          | none => fail .boundaryUnknown (stop.since content.position)
        | _ => fail .boundaryUnclosed (stop.since c.position)
      else
        .ok (.wordEdge, c)
  | _ => .ok (.wordEdge, c)

/-! ## All escapes -/

/-- Reads an escape of one character behind the backslash. -/
def readShortEscape (spaced : Bool) (start : Nat) (ch : Char) (after : Cursor) :
    Except Flaw (Node × Cursor) :=
  let span := after.since start
  if isEscapable ch then
    .ok (.char ⟨span, ch, false⟩, after)
  else if ch == 'b' then do
    let (anchor, after) ← readWordLook spaced start after
    return (.anchor (after.since start) anchor, after)
  else
    match controlCharacter? ch, letterClass? ch, anchor? ch with
    | some char, _, _ => .ok (.char ⟨span, char, false⟩, after)
    | _, some (kind, negated), _ => .ok (.letter span kind negated, after)
    | _, _, some anchor => .ok (.anchor span anchor, after)
    | _, _, _ => fail .escapeUnknown span

/-- Reads an escape, from its backslash on. -/
def readEscape (spaced : Bool) (c : Cursor) : Except Flaw (Node × Cursor) :=
  let start := c.position
  let c := c.drop 1
  let hex (count : Nat) : Except Flaw (Node × Cursor) := do
    let (literal, after) ← readHex spaced start count c
    return (.char literal, after)
  match c.rest with
  | [] => fail .escapeEnds (c.since start)
  | ch :: _ =>
    if isDigit ch then
      fail .backReference ⟨start, c.position + 1⟩
    else if ch == 'x' then hex 2
    else if ch == 'u' then hex 4
    else if ch == 'U' then hex 8
    else if ch == 'p' || ch == 'P' then do
      let (property, after) ← readProperty spaced start c
      return (.property property, after)
    else
      readShortEscape spaced start ch (c.drop 1)

end Pattern

end LoopTable
