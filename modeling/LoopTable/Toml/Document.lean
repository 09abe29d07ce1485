import LoopTable.Toml.Number
import LoopTable.Toml.Quoted
import LoopTable.Toml.Table

/-!
# Configuration texts

A configuration text is a list of statements, one to a line: a header opens a table, a repeated
header opens one more table of an array, and an assignment gives a key a value in the table that
is open. This file reads values, statements and whole texts.

* `value` reads a value. Arrays and braces nest up to a limit, which is also what bounds the
  recursion.
* `statements` reads the lines of a text, and `Table.ofStatements?` carries them out.
* `Table.ofText?` is both: the table that a text describes.
-/

namespace LoopTable.Toml

/-! ## Keys -/

/-- The greatest depth of nested values, and the greatest number of names in a key. -/
def nestingLimit : Nat := 79

/-- The characters of a name without quotes. -/
def isBare (c : Char) : Bool :=
  c.isAlphanum || c == '_' || c == '-'

/-- Reads one name of a key. -/
def name : Reader String := fun s =>
  match quotedLine s with
  | some read => some read
  | none =>
    let bare := s.takeWhile isBare
    if bare.isEmpty then none else some (String.ofList bare, s.dropWhile isBare)

/-- Reads a key of at most so many names, with points between them and blanks around them. -/
def keyWithin : Nat → Reader Key
  | 0, _ => none
  | n + 1, s => do
    let (first, s) ← name (skipBlanks s)
    match skipBlanks s with
    | '.' :: s =>
      let (key, rest) ← keyWithin n s
      return ({ key with parents := first :: key.parents }, rest)
    | rest => return (⟨[], first⟩, rest)

/-- Reads a key. -/
def key : Reader Key :=
  keyWithin nestingLimit

/-! ## Values -/

/-- Reads an assignment with a reader of values: a key, an equals sign and a value. -/
def assignment (item : Reader Value) : Reader (Key × Value) := fun s => do
  let (k, s) ← key s
  let s ← skip? '=' s
  let (v, s) ← item (skipBlanks s)
  return ((k, v), s)

/-- Reads the items of an array behind its opening bracket, or behind a comma in it. The number
bounds how many items there can be. -/
def arrayItems (item : Reader Value) : Nat → Reader (List Value)
  | 0, _ => none
  | n + 1, s => do
    let s ← skipGap false s
    if let ']' :: rest := s then
      return ([], rest)
    let (v, s) ← item s
    match ← skipGap false s with
    | ']' :: rest => return ([v], rest)
    | ',' :: s =>
      let (vs, rest) ← arrayItems item n s
      return (v :: vs, rest)
    | _ => none

/-- Reads the assignments between braces, behind a comma in them if `more`; there is no line end
among them and no comma behind the last. -/
def bracesItems (item : Reader Value) (more : Bool) : Nat → Reader (List (Key × Value))
  | 0, _ => none
  | n + 1, s => do
    let s := skipBlanks s
    match more, s with
    | false, '}' :: rest => return ([], rest)
    | _, s =>
      let (a, s) ← assignment item s
      match skipBlanks s with
      | '}' :: rest => return ([a], rest)
      | ',' :: s =>
        let (as, rest) ← bracesItems item true n s
        return (a :: as, rest)
      | _ => none

/-- The table of the assignments between braces. -/
def Table.ofBraces? (assignments : List (Key × Value)) : Option Table :=
  assignments.foldlM (fun t (k, v) => t.assign? k v) (Table.empty .braces)

/-- Reads a value that holds no others. -/
def scalar : Reader Value
  | 't' :: 'r' :: 'u' :: 'e' :: rest => some (.boolean true, rest)
  | 'f' :: 'a' :: 'l' :: 's' :: 'e' :: rest => some (.boolean false, rest)
  | [] => none
  | c :: rest =>
    if isQuote c then do
      let (text, rest) ← quoted (c :: rest)
      return (.string text, rest)
    else
      numeral (c :: rest)

/-- Reads a value in which others nest up to a depth. -/
def valueWithin : Nat → Reader Value
  | 0, s => scalar s
  | depth + 1, s =>
    match s with
    | '[' :: rest => do
      let (items, rest) ← arrayItems (valueWithin depth) (rest.length + 1) rest
      return (.array items, rest)
    | '{' :: rest => do
      let (assignments, rest) ← bracesItems (valueWithin depth) false (rest.length + 1) rest
      return (.table (← Table.ofBraces? assignments), rest)
    | s => scalar s

/-- Reads a value. -/
def value : Reader Value :=
  valueWithin nestingLimit

/-! ## Statements -/

/-- What one line of a text says. -/
inductive Statement
  /-- A header opens a table. -/
  | table (key : Key)
  /-- A repeated header opens one more table. -/
  | element (key : Key)
  /-- A key is given a value. -/
  | assign (key : Key) (value : Value)

/-- Reads a statement. -/
def statement : Reader Statement
  | '[' :: '[' :: s => do
    let (k, s) ← key s
    let s ← skip? ']' s
    return (.element k, ← skip? ']' s)
  | '[' :: s => do
    let (k, s) ← key s
    return (.table k, ← skip? ']' s)
  | s => do
    let ((k, v), s) ← assignment value s
    return (.assign k v, s)

/-- Reads lines to the end of a text; the number bounds how many there can be. -/
def statementsWithin : Nat → List Char → Option (List Statement)
  | 0, _ => none
  | n + 1, s =>
    match skipBlanks s with
    | [] => some []
    | s =>
      match endLine? s with
      | some rest => statementsWithin n rest
      | none => do
        let (first, s) ← statement s
        let others ← statementsWithin n (← endLine? s)
        return first :: others

/-- The statements of a text. -/
def statements (s : List Char) : Option (List Statement) :=
  statementsWithin (s.length + 1) s

namespace Table

/-- Carries out statements on a table in which the last header has opened a table, or none has. -/
def carryOut? (opened : Option Key) : List Statement → Table → Option Table
  | [], t => some t
  | .table key :: rest, t => do carryOut? (some key) rest (← t.openTable? key)
  | .element key :: rest, t => do carryOut? (some key) rest (← t.openElement? key)
  | .assign key value :: rest, t => do
    let t ← match opened with
      | none => t.assign? key value
      | some header => t.changeOpened? header (·.assign? key value)
    carryOut? opened rest t

/-- The table that statements describe. -/
def ofStatements? (list : List Statement) : Option Table :=
  carryOut? none list (empty .header)

/-- The table that a text describes. A byte order mark in front of it is left out. -/
def ofText? (text : String) : Option Table := do
  let list ← match text.toList with
    | '\ufeff' :: rest => statements rest
    | s => statements s
  ofStatements? list

end Table

end LoopTable.Toml
