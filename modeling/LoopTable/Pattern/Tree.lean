import LoopTable.Pattern.Flaw

/-!
# Patterns as they are written

A `Node` is a part of a pattern together with the stretch in which it is written. What stands
between brackets is a `Member`, which describes a set.

* `Node.tooDeep?` finds a part that lies too deep in others.
-/

namespace LoopTable

namespace Pattern

/-- What a group can switch on or off. -/
inductive Flag
  | anyCase
  | multiLine
  | dotAll
  | lazy
  | scripts
  | returns
  | spaced
  deriving DecidableEq

/-- A flag, or the sign that those behind it are switched off, with its stretch. -/
structure FlagItem where
  /-- The flag; without one it is the sign. -/
  flag : Option Flag
  /-- Where it stands. -/
  span : Span

/-- What some flags switch. -/
def switched (flags : List FlagItem) (flag : Flag) : Option Bool :=
  let ahead := flags.takeWhile (·.flag != some flag)
  if ahead.length = flags.length then none else some (ahead.all (·.flag.isSome))

/-- Where a pattern looks. -/
inductive Anchor
  | lineStart
  | lineEnd
  | textStart
  | textEnd
  | wordEdge
  | noWordEdge
  | wordStart
  | wordEnd
  | noWordBefore
  | noWordAfter
  deriving DecidableEq

/-- The classes that a letter behind a backslash names. -/
inductive LetterClass
  | digit
  | space
  | word
  deriving DecidableEq

/-- A class with a name between colons, as the ranges of its characters. -/
abbrev NamedClass := List (Nat × Nat)

/-- A character as it is written. -/
structure Literal where
  /-- Where it stands. -/
  span : Span
  /-- The character. -/
  char : Char
  /-- Whether it is written as a byte, with two digits of base sixteen. -/
  asByte : Bool

/-- A property of characters by its name. -/
structure Property where
  /-- Where it stands. -/
  span : Span
  /-- Whether the name goes with a value. -/
  hasValue : Bool
  /-- The name. -/
  name : List Char

/-- How two sets are put together. -/
inductive SetOperator
  | inter
  | diff
  | symmDiff
  deriving DecidableEq

/-- What stands between brackets. -/
inductive Member where
  /-- Nothing. -/
  | nothing (span : Span)
  /-- A character. -/
  | char (literal : Literal)
  /-- All characters from one to another. -/
  | range (span : Span) (low high : Literal)
  /-- A class with a name between colons. -/
  | named (span : Span) (ranges : NamedClass) (negated : Bool)
  /-- A class named by a letter. -/
  | letter (span : Span) (kind : LetterClass) (negated : Bool)
  /-- A property. -/
  | property (property : Property)
  /-- Brackets in brackets. -/
  | brackets (span : Span) (negated : Bool) (content : Member)
  /-- Several things. -/
  | several (span : Span) (members : List Member)
  /-- Two sets put together. -/
  | combined (span : Span) (operator : SetOperator) (left right : Member)

/-- Where something between brackets stands. -/
def Member.span : Member → Span
  | nothing span => span
  | char literal => literal.span
  | range span .. => span
  | named span .. => span
  | letter span .. => span
  | property p => p.span
  | brackets span .. => span
  | several span _ => span
  | combined span .. => span

/-- A part of a pattern. -/
inductive Node where
  /-- Nothing. -/
  | nothing (span : Span)
  /-- Flags for what follows in the group. -/
  | flags (span : Span) (items : List FlagItem)
  /-- A character. -/
  | char (literal : Literal)
  /-- The point, which stands for any character. -/
  | dot (span : Span)
  /-- A look at the place. -/
  | anchor (span : Span) (kind : Anchor)
  /-- A class named by a letter. -/
  | letter (span : Span) (kind : LetterClass) (negated : Bool)
  /-- A property. -/
  | property (property : Property)
  /-- Brackets. -/
  | brackets (span : Span) (negated : Bool) (content : Member)
  /-- A part several times. -/
  | repeated (span : Span) (least : Nat) (most : Option Nat) (body : Node)
  /-- A group, with the flags that hold in it. -/
  | group (span : Span) (flags : List FlagItem) (body : Node)
  /-- Parts to choose from. -/
  | choice (span : Span) (branches : List Node)
  /-- Parts after each other. -/
  | sequence (span : Span) (parts : List Node)

/-- Where a part stands. -/
def Node.span : Node → Span
  | nothing span => span
  | flags span _ => span
  | char literal => literal.span
  | dot span => span
  | anchor span _ => span
  | letter span .. => span
  | property p => p.span
  | brackets span .. => span
  | repeated span .. => span
  | group span .. => span
  | choice span _ => span
  | sequence span _ => span

/-! ## Depth -/

mutual

/-- The stretch of the first member that lies in more parts than are left. -/
def Member.tooDeep? (left : Nat) : Member → Option Span
  | .nothing _ | .char _ | .range .. | .named .. | .letter .. | .property _ => none
  | .brackets span _ content =>
    if left = 0 then some span else content.tooDeep? (left - 1)
  | .several span members =>
    if left = 0 then some span else Member.tooDeepIn? (left - 1) members
  | .combined span _ a b =>
    if left = 0 then some span else (a.tooDeep? (left - 1)).or (b.tooDeep? (left - 1))

/-- The same for several members. -/
def Member.tooDeepIn? (left : Nat) : List Member → Option Span
  | [] => none
  | member :: others => (member.tooDeep? left).or (Member.tooDeepIn? left others)

end

mutual

/-- The stretch of the first part that lies in more parts than are left. -/
def Node.tooDeep? (left : Nat) : Node → Option Span
  | .nothing _ | .flags .. | .char _ | .dot _ | .anchor .. | .letter .. | .property _ => none
  | .brackets span _ content =>
    if left = 0 then some span else content.tooDeep? (left - 1)
  | .repeated span _ _ body | .group span _ body =>
    if left = 0 then some span else body.tooDeep? (left - 1)
  | .choice span parts | .sequence span parts =>
    if left = 0 then some span else Node.tooDeepIn? (left - 1) parts

/-- The same for several parts. -/
def Node.tooDeepIn? (left : Nat) : List Node → Option Span
  | [] => none
  | part :: others => (part.tooDeep? left).or (Node.tooDeepIn? left others)

end

end Pattern

end LoopTable
