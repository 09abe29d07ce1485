import LoopTable.Pattern.Brackets
import LoopTable.Text.Letter

/-!
# Groups and whole patterns

A pattern is a sequence of parts; the sign `|` divides branches, and parentheses make a part of a
sequence of its own. A group may have a name, or flags that hold in it; flags alone hold up to the
end of the group that they stand in.

* `readPattern` reads a pattern to its end.
-/

namespace LoopTable

namespace Pattern

/-! ## Flags and names -/

/-- The flag of a letter. -/
def flag? : Char → Option Flag
  | 'i' => some .anyCase
  | 'm' => some .multiLine
  | 's' => some .dotAll
  | 'U' => some .lazy
  | 'u' => some .scripts
  | 'R' => some .returns
  | 'x' => some .spaced
  | _ => none

/-- Reads flags up to the colon or parenthesis behind them, after the ones in `items`; `dangling`
is the sign of negation if it came last. -/
def readFlags (items : List FlagItem) (dangling : Option Span) (position : Nat) :
    List Char → Except Flaw (List FlagItem × Cursor)
  | [] => fail .flagEnds ⟨position, position⟩
  | c :: rest =>
    let span : Span := ⟨position, position + 1⟩
    if c == ':' || c == ')' then
      match dangling with
      | some sign => fail .negationDangling sign
      | none => .ok (items, ⟨position, c :: rest⟩)
    else if c != '-' && (flag? c).isNone then
      fail .flagUnknown span
    else
      let flag := flag? c
      match items.find? (·.flag == flag) with
      | some item =>
        .error (.inText (if flag.isSome then .flagTwice else .negationTwice) span (some item.span))
      | none =>
        readFlags (items ++ [⟨flag, span⟩]) (if flag.isSome then none else some span)
          (position + 1) rest

/-- A character of a name; a name starts with a letter or an underscore. -/
def isNameChar (first : Bool) (c : Char) : Bool :=
  c == '_' || isLetter c || (!first && (c == '.' || c == '[' || c == ']' || isNumber c))

/-- Reads a name up to the bracket behind it, and gives its stretch. -/
def readName (c : Cursor) : Except Flaw ((List Char × Span) × Cursor) :=
  let start := c.position
  let first := c.rest.take 1 |>.takeWhile (isNameChar true)
  let name := if first.isEmpty then [] else first ++ (c.rest.drop 1).takeWhile (isNameChar false)
  let stop := c.drop name.length
  match stop.rest with
  | [] => fail .nameEnds stop.here
  | ch :: _ =>
    if ch != '>' then fail .nameCharacter stop.nextSpan
    else if name.isEmpty then fail .nameMissing ⟨start, start⟩
    else .ok ((name, stop.since start), stop.drop 1)

/-! ## What has been read -/

/-- Parts that have been read after each other, the last of them first. -/
structure Parts where
  /-- Where the first of them starts. -/
  start : Nat
  /-- The parts. -/
  nodes : List Node

/-- The parts as one that ends at a place. -/
def Parts.toNode (parts : Parts) (stop : Nat) : Node :=
  match parts.nodes with
  | [] => .nothing ⟨parts.start, stop⟩
  | [node] => node
  | nodes => .sequence ⟨parts.start, stop⟩ nodes.reverse

/-- What waits for its end outside of the parts. -/
inductive Outside
  /-- A group behind other parts. -/
  | group (around : Parts) (span : Span) (flags : List FlagItem) (spaced : Bool)
  /-- The branches ahead of the last sign between branches, the last of them first. -/
  | branches (start : Nat) (branches : List Node)

/-- How far a pattern has been read. -/
structure Draft where
  /-- The place. -/
  cursor : Cursor
  /-- Whether white space and comments have no meaning here. -/
  spaced : Bool
  /-- The names of groups, with their stretches. -/
  names : List (List Char × Span)
  /-- The parts since the last opening parenthesis or sign between branches. -/
  parts : Parts
  /-- What waits outside of the parts. -/
  outside : List Outside

namespace Draft

/-- Goes on at a place behind another part. -/
def push (p : Draft) (node : Node) (after : Cursor) : Draft :=
  { p with cursor := after, parts := { p.parts with nodes := node :: p.parts.nodes } }

/-- Goes on in a group that has been opened. -/
def enter (p : Draft) (span : Span) (flags : List FlagItem) (after : Cursor) : Draft :=
  { p with
    cursor := after
    spaced := (switched flags .spaced).getD p.spaced
    parts := ⟨after.position, []⟩
    outside := .group p.parts span flags p.spaced :: p.outside }

/-! ## Groups -/

/-- The looks ahead and behind, which are not part of the language. -/
def lookAround? (rest : List Char) : Option Nat :=
  match rest with
  | '?' :: '=' :: _ => some 2
  | '?' :: '!' :: _ => some 2
  | '?' :: '<' :: '=' :: _ => some 3
  | '?' :: '<' :: '!' :: _ => some 3
  | _ => none

/-- Reads a name and goes on in the group that has it. -/
def enterNamed (p : Draft) (span : Span) (c : Cursor) : Except Flaw Draft := do
  let ((name, stretch), after) ← readName c
  match p.names.find? (·.1 == name) with
  | some (_, earlier) => .error (.inText .nameTwice stretch (some earlier))
  | none =>
    return ({ p with names := p.names ++ [(name, stretch)] } : Draft).enter span [] after

/-- Reads an opening parenthesis with what belongs to it. -/
def openGroup (p : Draft) : Except Flaw Draft := do
  let span := p.cursor.nextSpan
  let c := p.cursor.next p.spaced
  match lookAround? c.rest with
  | some length => fail .lookAround ⟨span.start, c.position + length⟩
  | none =>
    match c.rest with
    | '?' :: 'P' :: '<' :: _ => p.enterNamed span (c.drop 3)
    | '?' :: '<' :: _ => p.enterNamed span (c.drop 2)
    | '?' :: [] => fail .groupUnclosed span
    | '?' :: rest =>
      let (flags, stop) ← readFlags [] none (c.position + 1) rest
      let after := stop.drop 1
      if stop.rest.head? == some ')' then
        if flags.isEmpty then
          fail .nothingToRepeat c.here
        let spaced := (switched flags .spaced).getD p.spaced
        return ({ p with spaced } : Draft).push (.flags (after.since span.start) flags) after
      else
        return p.enter span flags after
    | _ => return p.enter span [] c

/-- Reads a sign between branches. -/
def divide (p : Draft) : Draft :=
  let stop := p.cursor.position
  let branch := p.parts.toNode stop
  let outside := match p.outside with
    | .branches start branches :: outer => .branches start (branch :: branches) :: outer
    | outside => .branches p.parts.start [branch] :: outside
  let after := p.cursor.drop 1
  { p with cursor := after, parts := ⟨after.position, []⟩, outside }

/-- The parts and the branches ahead of them as one part, and what is outside of that. -/
def content (p : Draft) : Node × List Outside :=
  let stop := p.cursor.position
  let last := p.parts.toNode stop
  match p.outside with
  | .branches start branches :: outer => (.choice ⟨start, stop⟩ (last :: branches).reverse, outer)
  | outside => (last, outside)

/-- Reads a closing parenthesis. -/
def closeGroup (p : Draft) : Except Flaw Draft :=
  let (body, outside) := p.content
  match outside with
  | .group around span flags spaced :: outer =>
    let after := p.cursor.drop 1
    .ok (({ p with spaced, parts := around, outside := outer } : Draft).push
      (.group (after.since span.start) flags body) after)
  | _ => fail .groupUnopened p.cursor.nextSpan

/-- The whole pattern as one part. -/
def finish (p : Draft) : Except Flaw Node :=
  match p.content with
  | (_, .group _ span _ _ :: _) => fail .groupUnclosed span
  | (node, _) => .ok node

/-! ## Repetition -/

/-- The last part, which a sign repeats, and the parts ahead of it. -/
def toRepeat (p : Draft) : Except Flaw (Node × Parts) :=
  match p.parts.nodes with
  | [] | .nothing _ :: _ | .flags .. :: _ => fail .nothingToRepeat p.cursor.here
  | node :: others => .ok (node, { p.parts with nodes := others })

/-- Repeats a part; a question mark behind the sign only makes it prefer few. -/
def repeatPart (p : Draft) (node : Node) (parts : Parts) (least : Nat) (most : Option Nat)
    (c : Cursor) : Draft :=
  let after := if c.rest.head? == some '?' then c.drop 1 else c
  ({ p with parts } : Draft).push
    (.repeated ⟨node.span.start, after.position⟩ least most node) after

/-- Reads a sign of one character that repeats the last part. -/
def repeatBySign (p : Draft) (least : Nat) (most : Option Nat) : Except Flaw Draft := do
  let (node, parts) ← p.toRepeat
  return p.repeatPart node parts least most (p.cursor.drop 1)

/-- Reads what follows the comma of a count: the greater number, unless the count is open. -/
def readMost (spaced : Bool) (start : Nat) (least : Except Flaw Nat) (c : Cursor) :
    Except Flaw ((Nat × Option Nat) × Cursor) := do
  let c := c.next spaced
  if c.rest.isEmpty then
    fail .countUnclosed (c.since start)
  if c.rest.head? == some '}' then
    return ((← least, none), c)
  else
    let least ← least
    let (most, c) := c.readDecimal spaced
    return ((least, some (← most)), c)

/-- Reads a count between braces, which repeats the last part. -/
def repeatByCount (p : Draft) : Except Flaw Draft := do
  let start := p.cursor.position
  let (node, parts) ← p.toRepeat
  let c := p.cursor.next p.spaced
  if c.rest.isEmpty then
    fail .countUnclosed (c.since start)
  let (least, c) := c.readDecimal p.spaced
  if c.rest.isEmpty then
    fail .countUnclosed (c.since start)
  let ((least, most), c) ←
    if c.rest.head? == some ',' then
      readMost p.spaced start least c
    else do
      let least ← least
      pure ((least, some least), c)
  if c.rest.head? != some '}' then
    fail .countUnclosed (c.since start)
  let next := p.repeatPart node parts least most (c.next p.spaced)
  if most.any (· < least) then
    fail .countOrder (next.cursor.since start)
  return next

/-! ## The whole -/

/-- Reads a part that is no group, behind the others. -/
def readPart (p : Draft) (left : Nat) (ch : Char) : Except Flaw Draft :=
  let c := p.cursor
  match ch with
  | '[' => do
    let (node, after) ← readBrackets p.spaced left c
    return p.push node after
  | '\\' => do
    let (node, after) ← readEscape p.spaced c
    return p.push node after
  | '.' => .ok (p.push (.dot c.nextSpan) (c.drop 1))
  | '^' => .ok (p.push (.anchor c.nextSpan .lineStart) (c.drop 1))
  | '$' => .ok (p.push (.anchor c.nextSpan .lineEnd) (c.drop 1))
  | ch => .ok (p.push (.char ⟨c.nextSpan, ch, false⟩) (c.drop 1))

/-- Reads on by the next character, with no more than so many left. -/
def step (p : Draft) (left : Nat) (ch : Char) : Except Flaw Draft :=
  match ch with
  | '(' => p.openGroup
  | ')' => p.closeGroup
  | '|' => .ok p.divide
  | '?' => p.repeatBySign 0 (some 1)
  | '*' => p.repeatBySign 0 none
  | '+' => p.repeatBySign 1 none
  | '{' => p.repeatByCount
  | ch => p.readPart left ch

/-- Reads on to the end, with no more than so many characters left. Each round reads at least one
of them. -/
def readFrom : Nat → Draft → Except Flaw Node
  | 0, p => p.finish
  | n + 1, p =>
    let c := p.cursor.skip p.spaced
    let p := { p with cursor := c }
    match c.rest with
    | [] => p.finish
    | ch :: _ =>
      match p.step (n + 1) ch with
      | .error flaw => .error flaw
      | .ok next => readFrom n next

end Draft

/-- How deep the parts of a pattern may lie in each other. -/
def depthLimit : Nat := 250

/-- Reads a pattern. -/
def readPattern (text : List Char) : Except Flaw Node := do
  let node ← Draft.readFrom text.length ⟨⟨0, text⟩, false, [], ⟨0, []⟩, []⟩
  match node.tooDeep? depthLimit with
  | some span => fail (.tooDeep depthLimit) span
  | none => return node

end Pattern

end LoopTable
