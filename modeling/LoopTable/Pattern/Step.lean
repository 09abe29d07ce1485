import LoopTable.Pattern.CharSet
import LoopTable.Pattern.Regular

/-!
# The steps of a pattern

A pattern reads a character of a set, or it looks at the place that it has come to.

* `Look.holds` says whether a look is content with a place, by the characters around it.
* `Step.moveIn` gives the step as one through a text.
* `occurs` says whether an expression over steps has a path anywhere in a text.
-/

namespace LoopTable

namespace Pattern

/-- A look at a place. Words are those of ASCII if `ascii`, else those of all scripts. -/
inductive Look
  /-- The text starts here. -/
  | textStart
  /-- The text ends here. -/
  | textEnd
  /-- A line starts here. Lines end with a line feed, and if `returns` with a carriage return. -/
  | lineStart (returns : Bool)
  /-- A line ends here. -/
  | lineEnd (returns : Bool)
  /-- A word starts or ends here. -/
  | wordEdge (ascii : Bool)
  /-- No word starts or ends here. -/
  | noWordEdge (ascii : Bool)
  /-- A word starts here. -/
  | wordStart (ascii : Bool)
  /-- A word ends here. -/
  | wordEnd (ascii : Bool)
  /-- No word goes on from the left. -/
  | noWordBefore (ascii : Bool)
  /-- No word goes on to the right. -/
  | noWordAfter (ascii : Bool)
  deriving DecidableEq

/-- A character of a word in ASCII. -/
def isWordChar (c : Char) : Bool :=
  decide ('0' ≤ c ∧ c ≤ '9') || decide ('a' ≤ c ∧ c ≤ 'z') || decide ('A' ≤ c ∧ c ≤ 'Z') || c == '_'

namespace Look

/-- Whether the look is for words of any script. -/
def wantsScripts : Look → Bool
  | textStart | textEnd | lineStart _ | lineEnd _ => false
  | wordEdge ascii | noWordEdge ascii | wordStart ascii | wordEnd ascii | noWordBefore ascii
  | noWordAfter ascii => !ascii

/-- Whether a look is content with the place between two characters. Words are those of ASCII. -/
def holds (before after : Option Char) : Look → Bool
  | textStart => before.isNone
  | textEnd => after.isNone
  | lineStart false => before.isNone || before == some '\n'
  | lineStart true =>
    before.isNone || before == some '\n' || (before == some '\r' && after != some '\n')
  | lineEnd false => after.isNone || after == some '\n'
  | lineEnd true =>
    after.isNone || after == some '\r' || (after == some '\n' && before != some '\r')
  | wordEdge _ => before.any isWordChar != after.any isWordChar
  | noWordEdge _ => before.any isWordChar == after.any isWordChar
  | wordStart _ => !before.any isWordChar && after.any isWordChar
  | wordEnd _ => before.any isWordChar && !after.any isWordChar
  | noWordBefore _ => !before.any isWordChar
  | noWordAfter _ => !after.any isWordChar

end Look

/-- A step of a pattern. -/
inductive Step
  /-- Reads a character of a set. -/
  | read (set : CharSet)
  /-- Looks at the place. -/
  | look (look : Look)
  deriving DecidableEq

namespace Step

/-- Whether the step reads a character. -/
def reads : Step → Bool
  | read _ => true
  | look _ => false

/-- Whether the step looks for words of any script. -/
def wantsScripts : Step → Bool
  | read _ => false
  | look l => l.wantsScripts

/-- About how many bytes a machine for the step takes. -/
def size : Step → Nat
  | look _ => 32
  | read set =>
    match set.ranges with
    | [(low, high)] =>
      if low ≠ high then (if high < 0x80 then 72 else 192)
      else if low < 0x80 then 32
      else if low < 0x800 then 64
      else if low < 0xf800 then 96
      else 128
    | ranges => if set.isAscii then 64 + 8 * ranges.length else 64 + 128 * ranges.length

/-- The step through a text. -/
def moveIn (text : List Char) : Step → Move
  | read set => ⟨placesWhere (fun _ after => after.any set.contains) none text, true⟩
  | look l => ⟨placesWhere (fun before after => l.holds before after) none text, false⟩

end Step

/-- Whether an expression has a path anywhere in a text. -/
def occurs (expression : Regular Step) (text : List Char) : Bool :=
  let everywhere := placesWhere (fun _ _ => true) none text
  (expression.map (Step.moveIn text)).reach text.length everywhere != 0

end Pattern

end LoopTable
