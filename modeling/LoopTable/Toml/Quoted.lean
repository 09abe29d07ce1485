import LoopTable.Toml.Line

/-!
# Quoted text

Text is quoted in four ways: with double quotes, where a backslash starts an escape, or with single
quotes, where every character stands for itself; and each with one quote on one line, or with three
over several lines.

* `quoted` reads text in any of the four ways, `quotedLine` only the two that stay on a line.
-/

namespace LoopTable.Toml

/-- The quote in which escapes are read. -/
def doubleQuote : Char := '\x22'

/-- The quote in which nothing is read. -/
def singleQuote : Char := '\x27'

/-- What an escape of one character stands for. -/
def escaped? : Char → Option Char
  | 'b' => some '\x08'
  | 't' => some '\t'
  | 'n' => some '\n'
  | 'f' => some '\x0c'
  | 'r' => some '\r'
  | '\\' => some '\\'
  | c => if c == doubleQuote then some doubleQuote else none

/-- Where a reader of escapes stands. -/
inductive Escape
  /-- Outside of an escape. -/
  | outside
  /-- Behind the backslash. -/
  | begun
  /-- In front of so many digits of a code point, behind digits of this value. -/
  | digits (left value : Nat)
  /-- Behind a backslash and blanks that only a line end may follow. -/
  | folding
  /-- Behind a backslash and a line end; blanks and line ends are dropped. -/
  | folded

/-- Adds a character in front of what was read. -/
def prepend (c : Char) : Option (List Char × List Char) → Option (List Char × List Char)
  | some (text, rest) => some (c :: text, rest)
  | none => none

/-- Behind three closing quotes: up to two quotes more are part of the text. -/
def closeLines (quote : Char) : List Char → List Char × List Char
  | a :: b :: rest =>
    if a == quote && b == quote then ([a, b], rest)
    else if a == quote then ([a], b :: rest)
    else ([], a :: b :: rest)
  | [a] => if a == quote then ([a], []) else ([], [a])
  | [] => ([], [])

/-- The text up to a closing double quote, or up to three of them if it may have `lines`. -/
def basic (lines : Bool) (escape : Escape) : List Char → Option (List Char × List Char)
  | [] => none
  | c :: rest =>
    match escape with
    | .digits left value =>
      match hexDigit? c with
      | none => none
      | some digit =>
        let value := 16 * value + digit
        if left ≤ 1 then
          match character? value with
          | some c => prepend c (basic lines .outside rest)
          | none => none
        else
          basic lines (.digits (left - 1) value) rest
    | .begun =>
      match escaped? c with
      | some c => prepend c (basic lines .outside rest)
      | none =>
        if c == 'u' then basic lines (.digits 4 0) rest
        else if c == 'U' then basic lines (.digits 8 0) rest
        else if !lines then none
        else if isBlank c then basic lines .folding rest
        else match c, rest with
          | '\n', rest => basic lines .folded rest
          | '\r', '\n' :: rest => basic lines .folded rest
          | _, _ => none
    | .folding =>
      if isBlank c then basic lines .folding rest
      else match c, rest with
        | '\n', rest => basic lines .folded rest
        | '\r', '\n' :: rest => basic lines .folded rest
        | _, _ => none
    | .outside | .folded =>
      let dropping := match escape with
        | .folded => true
        | _ => false
      if dropping && isBlank c then
        basic lines .folded rest
      else if c == '\\' then
        basic lines .begun rest
      else if c == doubleQuote then
        if !lines then some ([], rest)
        else match rest with
          | a :: b :: after =>
            if a == doubleQuote && b == doubleQuote then some (closeLines doubleQuote after)
            else prepend c (basic lines .outside rest)
          | _ => none
      else if isText c then
        prepend c (basic lines .outside rest)
      else if !lines then
        none
      else match c, rest with
        | '\n', rest =>
          if dropping then basic lines .folded rest else prepend c (basic lines .outside rest)
        | '\r', '\n' :: rest =>
          if dropping then basic lines .folded rest else prepend '\n' (basic lines .outside rest)
        | _, _ => none

/-- The text up to a closing single quote, or up to three of them if it may have `lines`. -/
def literal (lines : Bool) : List Char → Option (List Char × List Char)
  | [] => none
  | c :: rest =>
    if c == singleQuote then
      if !lines then some ([], rest)
      else match rest with
        | a :: b :: after =>
          if a == singleQuote && b == singleQuote then some (closeLines singleQuote after)
          else prepend c (literal lines rest)
        | _ => none
    else if isText c then
      prepend c (literal lines rest)
    else if !lines then
      none
    else match c, rest with
      | '\n', rest => prepend c (literal lines rest)
      | '\r', '\n' :: rest => prepend '\n' (literal lines rest)
      | _, _ => none

/-- Behind an opening quote: the text in it, in one line. -/
def lineIn (quote : Char) (s : List Char) : Option (List Char × List Char) :=
  if quote == doubleQuote then basic false .outside s else literal false s

/-- Behind three opening quotes: the text in them. A line end right behind them is dropped. -/
def linesIn (quote : Char) (s : List Char) : Option (List Char × List Char) :=
  let s := (lineEnd? s).getD s
  if quote == doubleQuote then basic true .outside s else literal true s

/-- The text as a string. -/
def asString : Option (List Char × List Char) → Option (String × List Char)
  | some (text, rest) => some (String.ofList text, rest)
  | none => none

/-- Whether a character is a quote. -/
def isQuote (c : Char) : Bool :=
  c == doubleQuote || c == singleQuote

/-- Reads text that is quoted in one line. -/
def quotedLine : Reader String
  | [] => none
  | c :: rest => if isQuote c then asString (lineIn c rest) else none

/-- Reads quoted text. -/
def quoted : Reader String
  | a :: b :: c :: rest =>
    if isQuote a && b == a && c == a then asString (linesIn a rest)
    else quotedLine (a :: b :: c :: rest)
  | s => quotedLine s

end LoopTable.Toml
