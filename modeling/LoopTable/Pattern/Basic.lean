import LoopTable.Pattern.Group
import LoopTable.Pattern.Meaning

/-!
# Patterns

A pattern is a regular expression that is written as a text, and says in which texts it occurs.

* `Pattern.ofText` reads a pattern, or says why the text is none.
* `Pattern.occursIn` says whether a pattern occurs in a text.
-/

namespace LoopTable

/-- A pattern, by its meaning. -/
structure Pattern where
  /-- What has to have a path somewhere in a text. -/
  expression : Pattern.Regular Pattern.Step
  deriving DecidableEq

namespace Pattern

/-- How many bytes a machine for a pattern may take. -/
def sizeLimit : Nat := 10485760

/-- Reads a pattern. It must not take too much memory, nor look for the words of all scripts. -/
def ofText (text : String) : Except Flaw Pattern := do
  let node ← readPattern text.toList
  let (expression, _) ← node.meaning .initial
  if expression.size Step.size > sizeLimit then
    .error (.tooBig sizeLimit)
  else if expression.any Step.wantsScripts then
    .error .wordsUnavailable
  else
    return ⟨expression⟩

/-- Whether a pattern occurs in a text. -/
def occursIn (pattern : Pattern) (text : String) : Bool :=
  occurs pattern.expression text.toList

end Pattern

end LoopTable
