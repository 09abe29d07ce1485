import LoopTable.Pattern.Step
import LoopTable.Pattern.Tree

/-!
# The meaning of patterns

A pattern means a regular expression over steps. What a part means depends on the flags that hold
where it stands, the `Mode`.

Of the characters beyond ASCII nothing is known but their order: not which of them are letters,
digits or white space, and not their other case. Whatever would need that has no meaning. Without
the flag for all scripts a pattern is about bytes, and must not accept parts of characters.

* `Node.meaning` gives the expression of a part, and the mode behind it.
-/

namespace LoopTable

namespace Pattern

/-- The flags that matter to the meaning of a part. -/
structure Mode where
  /-- The case of letters does not matter. -/
  anyCase : Bool
  /-- The signs for the ends of the text are for the ends of lines. -/
  multiLine : Bool
  /-- The point stands for line ends too. -/
  dotAll : Bool
  /-- Lines may end with a carriage return. -/
  returns : Bool
  /-- Sets are of characters of all scripts. -/
  scripts : Bool
  deriving DecidableEq

namespace Mode

/-- The mode at the start of a pattern. -/
def initial : Mode := ⟨false, false, false, false, true⟩

/-- The mode with some flags switched. -/
def switch (mode : Mode) (flags : List FlagItem) : Mode where
  anyCase := (switched flags .anyCase).getD mode.anyCase
  multiLine := (switched flags .multiLine).getD mode.multiLine
  dotAll := (switched flags .dotAll).getD mode.dotAll
  returns := (switched flags .returns).getD mode.returns
  scripts := (switched flags .scripts).getD mode.scripts

/-- What sets are sets of. -/
def alphabet (mode : Mode) : Alphabet :=
  if mode.scripts then .characters else .bytes

/-- Adds the other case of letters if case does not matter. Of letters beyond ASCII the other case
is not known. -/
def fold (mode : Mode) (span : Span) (set : CharSet) : Except Flaw CharSet :=
  if !mode.anyCase then .ok set
  else if !mode.scripts then .ok set.withOtherCase
  else if set.ranges.isEmpty || set.caseClosed then .ok { set with caseClosed := true }
  else fail .caseUnavailable span

/-- A set as it stands in a pattern, with other cases and negation. Sets of bytes have to be sets of
characters of ASCII. -/
def close (mode : Mode) (span : Span) (negated : Bool) (set : CharSet) :
    Except Flaw CharSet := do
  let set ← mode.fold span set
  let set := if negated then set.compl mode.alphabet else set
  if !mode.scripts && !set.isAscii then
    fail .matchesHalfCharacters span
  return set

end Mode

/-! ## Sets -/

/-- The ranges of a class that is named by a letter, in ASCII. -/
def LetterClass.ranges : LetterClass → List (Nat × Nat)
  | digit => [(0x30, 0x39)]
  | space => [(0x09, 0x0d), (0x20, 0x20)]
  | word => [(0x30, 0x39), (0x41, 0x5a), (0x5f, 0x5f), (0x61, 0x7a)]

/-- The set of a class that is named by a letter. It is known for ASCII only. -/
def LetterClass.set (kind : LetterClass) (mode : Mode) (span : Span) (negated : Bool) :
    Except Flaw CharSet := do
  if mode.scripts then
    fail .classUnavailable span
  let set := CharSet.ofRanges kind.ranges
  let set := if negated then set.compl .bytes else set
  if !set.isAscii then
    fail .matchesHalfCharacters span
  return set

/-- The name of a property without what is of no account in it: case, blanks, dashes, underscores,
characters beyond ASCII, and the word "is" ahead of it. -/
def Property.plainName (p : Property) : List Char :=
  let name := p.name.map Char.toLower
  let name := match name with
    | 'i' :: 's' :: rest => rest
    | name => name
  name.filter fun c => c.toNat < 0x80 && c != ' ' && c != '-' && c != '_'

/-- The flaw of a property. None is known; of three it is the value that is missing, since their
names are also those of values. -/
def Property.flaw (mode : Mode) (p : Property) : Flaw :=
  let cause : Cause :=
    if !mode.scripts then .characterTooWide
    else if p.hasValue then .propertyUnknown
    else if ["cf", "sc", "lc"].contains (String.ofList p.plainName) then .propertyValueUnknown
    else .propertyUnknown
  .inText cause p.span none

/-- The number of a character in a set. Of bytes only those of ASCII can stand in a set. -/
def Literal.number (mode : Mode) (literal : Literal) : Except Flaw Nat :=
  if mode.scripts || literal.char.toNat < 0x80 then .ok (charNumber literal.char)
  else if literal.asByte then fail .matchesHalfCharacters literal.span
  else fail .characterTooWide literal.span

/-- Puts two sets together. -/
def SetOperator.apply (alphabet : Alphabet) (a b : CharSet) : SetOperator → CharSet
  | inter => a.inter b
  | diff => a.diff alphabet b
  | symmDiff => a.symmDiff alphabet b

mutual

/-- Adds a member to a set. -/
def Member.addTo (mode : Mode) (set : CharSet) : Member → Except Flaw CharSet
  | .nothing _ => .ok set
  | .char literal => do
    let n ← literal.number mode
    return set.insert n n
  | .range _ low high => do
    return set.insert (← low.number mode) (← high.number mode)
  | .named span ranges negated => do
    return set.union (← mode.close span negated (.ofRanges ranges))
  | .letter span kind negated => do
    return set.union (← kind.set mode span negated)
  | .property p => .error (p.flaw mode)
  | .brackets span negated content => do
    return set.union (← mode.close span negated (← content.addTo mode .empty))
  | .several _ members => Member.addAllTo mode set members
  | .combined _ operator left right => do
    let a ← left.addTo mode .empty
    let b ← right.addTo mode .empty
    let b ← mode.fold right.span b
    let a ← mode.fold left.span a
    return set.union (operator.apply mode.alphabet a b)

/-- Adds several members to a set. -/
def Member.addAllTo (mode : Mode) (set : CharSet) : List Member → Except Flaw CharSet
  | [] => .ok set
  | member :: others => do Member.addAllTo mode (← member.addTo mode set) others

end

/-! ## Parts -/

/-- A part that reads a character of a set. -/
def reading (set : CharSet) : Regular Step := .step (.read set)

/-- The meaning of a character. -/
def Literal.meaning (mode : Mode) (literal : Literal) : Except Flaw (Regular Step) := do
  if !mode.scripts && literal.asByte && literal.char.toNat ≥ 0x80 then
    fail .matchesHalfCharacters literal.span
  let set := CharSet.singleton literal.char
  if mode.scripts then
    return reading (← mode.fold literal.span set)
  else
    return reading (if mode.anyCase then set.withOtherCase else set)

/-- The meaning of the point: any character that does not end a line, or just any. -/
def dotMeaning (mode : Mode) (span : Span) : Except Flaw (Regular Step) :=
  if !mode.scripts then
    fail .matchesHalfCharacters span
  else
    let ends := if mode.dotAll then []
      else if mode.returns then [(0x0a, 0x0a), (0x0d, 0x0d)]
      else [(0x0a, 0x0a)]
    .ok (reading ((CharSet.ofRanges ends).compl .characters))

/-- The look of an anchor. -/
def Anchor.look (mode : Mode) : Anchor → Look
  | lineStart => if mode.multiLine then .lineStart mode.returns else .textStart
  | lineEnd => if mode.multiLine then .lineEnd mode.returns else .textEnd
  | textStart => .textStart
  | textEnd => .textEnd
  | wordEdge => .wordEdge !mode.scripts
  | noWordEdge => .noWordEdge !mode.scripts
  | wordStart => .wordStart !mode.scripts
  | wordEnd => .wordEnd !mode.scripts
  | noWordBefore => .noWordBefore !mode.scripts
  | noWordAfter => .noWordAfter !mode.scripts

mutual

/-- The meaning of a part, and the mode behind it. Flags that are switched in a group hold up to
the end of it, in the branches to come as well. -/
def Node.meaning (mode : Mode) : Node → Except Flaw (Regular Step × Mode)
  | .nothing _ => .ok (.empty, mode)
  | .flags _ items => .ok (.empty, mode.switch items)
  | .char literal => do return (← literal.meaning mode, mode)
  | .dot span => do return (← dotMeaning mode span, mode)
  | .anchor _ kind => .ok (.step (.look (kind.look mode)), mode)
  | .letter span kind negated => do return (reading (← kind.set mode span negated), mode)
  | .property p => .error (p.flaw mode)
  | .brackets span negated content => do
    return (reading (← mode.close span negated (← content.addTo mode .empty)), mode)
  | .repeated _ least most body => do
    let (body, mode) ← body.meaning mode
    return (.times Step.reads least most body, mode)
  | .group _ items body => do
    let (body, _) ← body.meaning (mode.switch items)
    return (body, mode)
  | .choice _ branches => do
    let (branches, mode) ← Node.meanings mode branches
    return (.oneOf branches, mode)
  | .sequence _ parts => do
    let (parts, mode) ← Node.meanings mode parts
    return (.all parts, mode)

/-- The meanings of parts after each other. -/
def Node.meanings (mode : Mode) : List Node → Except Flaw (List (Regular Step) × Mode)
  | [] => .ok ([], mode)
  | part :: others => do
    let (meaning, mode) ← part.meaning mode
    let (meanings, mode) ← Node.meanings mode others
    return (meaning :: meanings, mode)

end

end Pattern

end LoopTable
