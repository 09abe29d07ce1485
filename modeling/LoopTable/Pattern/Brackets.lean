import LoopTable.Pattern.Escape

/-!
# Brackets

Between brackets stand the members of a set: characters, ranges, classes and brackets in them. Sets
are put together with two signs `&&`, `--` or `~~`; such a sign takes all that stands to its left.

* `readBrackets` reads from an opening bracket to the one that closes it.
-/

namespace LoopTable

namespace Pattern

/-- The ranges of the class with a name. -/
def namedClass? (name : List Char) : Option NamedClass :=
  match String.ofList name with
  | "alnum" => some [(0x30, 0x39), (0x41, 0x5a), (0x61, 0x7a)]
  | "alpha" => some [(0x41, 0x5a), (0x61, 0x7a)]
  | "ascii" => some [(0x00, 0x7f)]
  | "blank" => some [(0x09, 0x09), (0x20, 0x20)]
  | "cntrl" => some [(0x00, 0x1f), (0x7f, 0x7f)]
  | "digit" => some [(0x30, 0x39)]
  | "graph" => some [(0x21, 0x7e)]
  | "lower" => some [(0x61, 0x7a)]
  | "print" => some [(0x20, 0x7e)]
  | "punct" => some [(0x21, 0x2f), (0x3a, 0x40), (0x5b, 0x60), (0x7b, 0x7e)]
  | "space" => some [(0x09, 0x0d), (0x20, 0x20)]
  | "upper" => some [(0x41, 0x5a)]
  | "word" => some [(0x30, 0x39), (0x41, 0x5a), (0x5f, 0x5f), (0x61, 0x7a)]
  | "xdigit" => some [(0x30, 0x39), (0x41, 0x46), (0x61, 0x66)]
  | _ => none

/-- Reads a class with a name between colons, if one stands here. -/
def readNamed? (c : Cursor) : Option (Member × Cursor) :=
  match c.rest with
  | '[' :: ':' :: rest =>
    let (negated, rest) := match rest with
      | '^' :: rest => (true, rest)
      | rest => (false, rest)
    let name := rest.takeWhile (· != ':')
    match rest.drop name.length, namedClass? name with
    | ':' :: ']' :: _, some ranges =>
      let after := c.drop (name.length + if negated then 5 else 4)
      some (.named (after.since c.position) ranges negated, after)
    | _, _ => none
  | _ => none

/-! ## Members next to each other -/

/-- Members that have been read, the last of them first. -/
structure Members where
  /-- Where they stand. -/
  span : Span
  /-- The members. -/
  items : List Member

namespace Members

/-- No member yet. -/
def none (c : Cursor) : Members := ⟨c.here, []⟩

/-- Adds a member. -/
def push (members : Members) (member : Member) : Members :=
  let start := if members.items.isEmpty then member.span.start else members.span.start
  ⟨⟨start, member.span.stop⟩, member :: members.items⟩

/-- The members as one. -/
def toMember (members : Members) : Member :=
  match members.items with
  | [] => .nothing members.span
  | [member] => member
  | items => .several members.span items.reverse

end Members

/-- What has been opened and waits for its end. -/
inductive Opened
  /-- Brackets behind other members. -/
  | brackets (around : Members) (span : Span) (negated : Bool)
  /-- A sign that puts two sets together, behind the left one. -/
  | operator (operator : SetOperator) (left : Member)

/-- Brackets that have no end. -/
def unclosed {α : Type} : List Opened → Except Flaw α
  | [] => fail .bracketUnclosed ⟨0, 0⟩
  | .brackets _ span _ :: _ => fail .bracketUnclosed span
  | .operator .. :: others => unclosed others

/-- Puts a set together with the one to the left of the sign ahead of it, if there is one. -/
def applyOperator (right : Member) : List Opened → Member × List Opened
  | .operator operator left :: others =>
    (.combined ⟨left.span.start, right.span.stop⟩ operator left right, others)
  | opened => (right, opened)

/-- Adds leading signs `-`, which stand for themselves, by their positions. -/
def Members.pushDashes (members : Members) (dashes : List (Char × Nat)) : Members :=
  dashes.foldl (fun members dash =>
    members.push (.char ⟨⟨dash.2, dash.2 + 1⟩, dash.1, false⟩)) members

/-- Reads an opening bracket with what belongs to it: the sign for the complement, leading dashes,
and a closing bracket that comes first and stands for itself. -/
def readOpening (spaced : Bool) (around : Members) (c : Cursor) :
    Except Flaw ((Opened × Members) × Cursor) := do
  let start := c.position
  let c := c.next spaced
  if c.rest.isEmpty then
    fail .bracketUnclosed (c.since start)
  let negated := c.rest.head? == some '^'
  let c := if negated then c.next spaced else c
  if c.rest.isEmpty then
    fail .bracketUnclosed (c.since start)
  let members := Members.none c
  let (dashes, c) := c.readPlaced spaced (· == '-')
  let members := members.pushDashes dashes
  if c.rest.isEmpty then
    fail .bracketUnclosed ⟨start, start⟩
  if members.items.isEmpty && c.rest.head? == some ']' then
    let after := c.next spaced
    if after.rest.isEmpty then
      fail .bracketUnclosed (after.since start)
    return ((.brackets around (after.since start) negated,
      members.push (.char ⟨c.nextSpan, ']', false⟩)), after)
  else
    return ((.brackets around (c.since start) negated, members), c)

/-- Reads a character or an escape between brackets. -/
def readItem (spaced : Bool) (c : Cursor) : Except Flaw (Node × Cursor) :=
  match c.rest with
  | [] => fail .bracketUnclosed c.here
  | '\\' :: _ => readEscape spaced c
  | ch :: _ => .ok (.char ⟨c.nextSpan, ch, false⟩, c.drop 1)

/-- A part as a member. Looks have no place between brackets. -/
def memberOf : Node → Except Flaw Member
  | .char literal => .ok (.char literal)
  | .letter span kind negated => .ok (.letter span kind negated)
  | .property property => .ok (.property property)
  | node => fail .bracketEscape node.span

/-- A part as an end of a range, which has to be a character. -/
def boundOf : Node → Except Flaw Literal
  | .char literal => .ok literal
  | node => fail .rangeBound node.span

/-- Reads a member: one character or class, or a range. A dash in front of a closing bracket or of
another dash makes no range. -/
def readMember (spaced : Bool) (opened : List Opened) (c : Cursor) :
    Except Flaw (Member × Cursor) := do
  let (first, c) ← readItem spaced c
  let c := c.skip spaced
  if c.rest.isEmpty then
    unclosed opened
  let second := c.second? spaced
  if c.rest.head? != some '-' || second == some ']' || second == some '-' then
    return (← memberOf first, c)
  else
    let c := c.next spaced
    if c.rest.isEmpty then
      unclosed opened
    let (last, c) ← readItem spaced c
    let span : Span := ⟨first.span.start, last.span.stop⟩
    let low ← boundOf first
    let high ← boundOf last
    if high.char < low.char then
      fail .rangeOrder span
    return (.range span low high, c)

/-- The sign that puts sets together, if one stands here. -/
def operator? (c : Cursor) : Option SetOperator :=
  match c.rest with
  | '&' :: '&' :: _ => some .inter
  | '-' :: '-' :: _ => some .diff
  | '~' :: '~' :: _ => some .symmDiff
  | _ => none

/-- Reads on between brackets, until all that has been opened is closed. Each round reads at least
one character. -/
def readBracketsFrom (spaced : Bool) :
    Nat → List Opened → Members → Cursor → Except Flaw (Node × Cursor)
  | 0, opened, _, _ => unclosed opened
  | n + 1, opened, members, c =>
    let c := c.skip spaced
    match c.rest with
    | [] => unclosed opened
    | '[' :: _ =>
      match if opened.isEmpty then none else readNamed? c with
      | some (member, after) => readBracketsFrom spaced n opened (members.push member) after
      | none => do
        let ((bracket, content), after) ← readOpening spaced members c
        readBracketsFrom spaced n (bracket :: opened) content after
    | ']' :: _ =>
      let (content, opened) := applyOperator members.toMember opened
      let after := c.drop 1
      match opened with
      | .brackets around span negated :: outer =>
        let span := after.since span.start
        if outer.isEmpty then
          .ok (.brackets span negated content, after)
        else
          readBracketsFrom spaced n outer (around.push (.brackets span negated content)) after
      | opened => unclosed opened
    | _ =>
      match operator? c with
      | some operator =>
        let (left, opened) := applyOperator members.toMember opened
        let after := c.drop 2
        readBracketsFrom spaced n (.operator operator left :: opened) (.none after) after
      | none => do
        let (member, after) ← readMember spaced opened c
        readBracketsFrom spaced n opened (members.push member) after

/-- Reads brackets with all that stands between them, from the opening one on, in a pattern of which
no more than so many characters are left. -/
def readBrackets (spaced : Bool) (left : Nat) (c : Cursor) : Except Flaw (Node × Cursor) :=
  readBracketsFrom spaced (left + 1) [] (.none c) c

end Pattern

end LoopTable
