import LoopTable.Numeral

/-!
# What is wrong with a pattern

A `Flaw` says why a pattern is none. Most flaws lie in a stretch of the pattern, the `Span`, and
some have to do with a second stretch further ahead.

* `Flaw.message` words a flaw. It repeats the pattern and underlines the stretches.
-/

namespace LoopTable

namespace Pattern

/-- A stretch of a pattern, by the numbers of characters ahead of its two ends. -/
structure Span where
  /-- How many characters stand ahead of it. -/
  start : Nat
  /-- How many characters stand ahead of its end. -/
  stop : Nat
  deriving DecidableEq

/-- Why a pattern is none. -/
inductive Cause
  | bracketEscape
  | rangeOrder
  | rangeBound
  | bracketUnclosed
  | decimalTooBig
  | hexMissing
  | hexNoCharacter
  | hexDigit
  | escapeEnds
  | escapeUnknown
  | negationDangling
  | flagTwice
  | negationTwice
  | flagEnds
  | flagUnknown
  | nameTwice
  | nameMissing
  | nameCharacter
  | nameEnds
  | groupUnclosed
  | groupUnopened
  | tooDeep (limit : Nat)
  | countOrder
  | countMissing
  | countUnclosed
  | nothingToRepeat
  | boundaryUnclosed
  | boundaryUnknown
  | boundaryEnds
  | propertyName
  | backReference
  | lookAround
  | characterTooWide
  | matchesHalfCharacters
  | propertyUnknown
  | propertyValueUnknown
  | classUnavailable
  | caseUnavailable
  deriving DecidableEq

/-- The wording of a cause. -/
def Cause.text : Cause → String
  | bracketEscape => "invalid escape sequence found in character class"
  | rangeOrder => "invalid character class range, the start must be <= the end"
  | rangeBound => "invalid range boundary, must be a literal"
  | bracketUnclosed => "unclosed character class"
  | decimalTooBig => "decimal literal invalid"
  | hexMissing => "hexadecimal literal empty"
  | hexNoCharacter => "hexadecimal literal is not a Unicode scalar value"
  | hexDigit => "invalid hexadecimal digit"
  | escapeEnds => "incomplete escape sequence, reached end of pattern prematurely"
  | escapeUnknown => "unrecognized escape sequence"
  | negationDangling => "dangling flag negation operator"
  | flagTwice => "duplicate flag"
  | negationTwice => "flag negation operator repeated"
  | flagEnds => "expected flag but got end of regex"
  | flagUnknown => "unrecognized flag"
  | nameTwice => "duplicate capture group name"
  | nameMissing => "empty capture group name"
  | nameCharacter => "invalid capture group character"
  | nameEnds => "unclosed capture group name"
  | groupUnclosed => "unclosed group"
  | groupUnopened => "unopened group"
  | tooDeep limit => s!"exceed the maximum number of nested parentheses/brackets ({limit})"
  | countOrder => "invalid repetition count range, the start must be <= the end"
  | countMissing => "repetition quantifier expects a valid decimal"
  | countUnclosed => "unclosed counted repetition"
  | nothingToRepeat => "repetition operator missing expression"
  | boundaryUnclosed =>
    "special word boundary assertion is either unclosed or contains an invalid character"
  | boundaryUnknown =>
    "unrecognized special word boundary assertion, " ++
      "valid choices are: start, end, start-half or end-half"
  | boundaryEnds =>
    "found either the beginning of a special word boundary or a bounded repetition on a " ++
      "\\b with an opening brace, but no closing brace"
  | propertyName => "invalid Unicode character class"
  | backReference => "backreferences are not supported"
  | lookAround => "look-around, including look-ahead and look-behind, is not supported"
  | characterTooWide => "Unicode not allowed here"
  | matchesHalfCharacters => "pattern can match invalid UTF-8"
  | propertyUnknown => "Unicode property not found"
  | propertyValueUnknown => "Unicode property value not found"
  | classUnavailable =>
    "Unicode-aware Perl class not found (make sure the unicode-perl feature is enabled)"
  | caseUnavailable =>
    "Unicode-aware case insensitivity matching is not available " ++
      "(make sure the unicode-case feature is enabled)"

/-- A flaw of a pattern. -/
inductive Flaw
  /-- Something is wrong in a stretch, and perhaps with regard to an earlier one. -/
  | inText (cause : Cause) (span : Span) (earlier : Option Span)
  /-- The pattern asks where words of any script end, which is not known. -/
  | wordsUnavailable
  /-- The pattern would take more memory than the limit. -/
  | tooBig (limit : Nat)
  deriving DecidableEq

/-- A flaw in a stretch, and in no other. -/
def fail {α : Type} (cause : Cause) (span : Span) : Except Flaw α :=
  .error (.inText cause span none)

/-! ## Lines and columns -/

/-- Where a character stands in a text of several lines; lines and columns count from one. -/
structure Spot where
  /-- The line. -/
  line : Nat
  /-- The column. -/
  column : Nat
  deriving DecidableEq

/-- The spot behind so many characters of a text that goes on from a spot. -/
def Spot.advance (spot : Spot) : Nat → List Char → Spot
  | 0, _ => spot
  | _, [] => spot
  | n + 1, c :: rest =>
    (if c = '\n' then ⟨spot.line + 1, 1⟩ else ⟨spot.line, spot.column + 1⟩ : Spot).advance n rest

/-- The two ends of a stretch of a text. -/
def Span.spots (pattern : List Char) (span : Span) : Spot × Spot :=
  ((⟨1, 1⟩ : Spot).advance span.start pattern, (⟨1, 1⟩ : Spot).advance span.stop pattern)

/-- The text without a carriage return at its end. -/
def dropReturn (line : List Char) : List Char :=
  if line.getLast? = some '\r' then line.dropLast else line

/-- The lines of a text. A line ends with a line feed, which a carriage return may precede; behind
the last line end stands a line only if it has a character. -/
def linesFrom (line : List Char) : List Char → List (List Char)
  | [] => if line.isEmpty then [] else [line.reverse]
  | c :: rest =>
    if c = '\n' then dropReturn line.reverse :: linesFrom [] rest else linesFrom (c :: line) rest

/-- Line under a line, with a mark under each column of the stretches, one mark at least. -/
def underline (column : Nat) : List (Spot × Spot) → List Char
  | [] => []
  | (first, last) :: others =>
    let gap := first.column - 1 - column
    let marks := max 1 (last.column - first.column)
    List.replicate gap ' ' ++ List.replicate marks '^' ++ underline (column + gap + marks) others

/-- Lines of a pattern with numbers of the given width in front of them, and under each the marks
of the stretches in it. -/
def notate (width : Nat) (spans : List (Spot × Spot)) (number : Nat) :
    List (List Char) → List String
  | [] => []
  | line :: others =>
    let head := if width = 0 then "    " else Numeral.padLeft ' ' width (toString number) ++ ": "
    let text := head ++ String.ofList line
    let notes := spans.filter fun span => span.1.line == number
    let shown :=
      if notes.isEmpty then [text]
      else [text, String.ofList (List.replicate head.length ' ' ++ underline 0 notes)]
    shown ++ notate width spans (number + 1) others

/-- Whether a stretch comes first, by its ends. -/
def Span.precedes (a b : Span) : Bool :=
  a.start < b.start || (a.start == b.start && a.stop ≤ b.stop)

/-- The stretches of a flaw, in the order in which they stand. -/
def inOrder (span : Span) : Option Span → List Span
  | none => [span]
  | some earlier => if earlier.precedes span then [earlier, span] else [span, earlier]

/-- The note on a stretch of several lines. -/
def rangeNote (span : Spot × Spot) : String :=
  let line := span.1.line
  let column := span.1.column
  let lastLine := span.2.line
  let lastColumn := span.2.column - 1
  s!"on line {line} (column {column}) through line {lastLine} (column {lastColumn})"

/-- The wording of a flaw in a stretch of a pattern: a heading, the pattern with the stretch
marked, and the cause. A pattern of several lines stands between rules, with numbered lines. -/
def wording (pattern : List Char) (cause : Cause) (spans : List Span) : String :=
  let spots := spans.map (Span.spots pattern)
  let inLine := spots.filter fun span => span.1.line == span.2.line
  let across := spots.filter fun span => span.1.line != span.2.line
  let lines := linesFrom [] pattern
  let count := if pattern.getLast? = some '\n' then lines.length + 1 else lines.length
  let width := if count ≤ 1 then 0 else (toString count).length
  let shown := notate width inLine 1 lines
  let rule := if pattern.contains '\n' then [String.ofList (List.replicate 79 '~')] else []
  let notes := if pattern.contains '\n' then across.map rangeNote else []
  String.intercalate "\n"
    (["regex parse error:"] ++ rule ++ shown ++ rule ++ notes ++ ["error: " ++ cause.text])

/-- The message about a flaw of a pattern. -/
def Flaw.message (pattern : String) : Flaw → String
  | inText cause span earlier => wording pattern.toList cause (inOrder span earlier)
  | wordsUnavailable => "error building NFA"
  | tooBig limit => s!"Compiled regex exceeds size limit of {limit} bytes."

end Pattern

end LoopTable
