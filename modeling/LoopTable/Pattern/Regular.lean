/-!
# Regular expressions

A `Regular α` describes which paths lead through a text. Its leaves, of the type `α`, are single
steps; sequences, choices and repetitions put paths together.

To find out where paths lead, a step is given as a `Move`: from which places of the text it can be
taken, and whether it goes on to the next place or stays. A set of places is a number whose bits
stand for the places, the lowest bit for the place in front of the text.

* `Regular.reach` gives the places to which paths lead from some places.
-/

namespace LoopTable

namespace Pattern

/-- A regular expression over steps. -/
inductive Regular (α : Type) where
  /-- The path of no step. -/
  | empty
  /-- The path of one step. -/
  | step (a : α)
  /-- A path, and another from where it ends. -/
  | seq (first second : Regular α)
  /-- One path or another. -/
  | alt (left right : Regular α)
  /-- At least `least` paths after each other, and at most `most` if that is a number. -/
  | repeated (least : Nat) (most : Option Nat) (body : Regular α)
  deriving DecidableEq

namespace Regular

variable {α β : Type}

/-- The expression with other steps. -/
def map (f : α → β) : Regular α → Regular β
  | empty => empty
  | step a => step (f a)
  | seq first second => seq (first.map f) (second.map f)
  | alt left right => alt (left.map f) (right.map f)
  | repeated least most body => repeated least most (body.map f)

/-- Whether a step of the expression has a property. -/
def any (p : α → Bool) : Regular α → Bool
  | empty => false
  | step a => p a
  | seq first second => first.any p || second.any p
  | alt left right => left.any p || right.any p
  | repeated _ _ body => body.any p

/-- All of the expressions after each other. -/
def all : List (Regular α) → Regular α
  | [] => empty
  | [e] => e
  | e :: others => seq e (all others)

/-- One of the expressions; of none it is the empty path. -/
def oneOf : List (Regular α) → Regular α
  | [] => empty
  | [e] => e
  | e :: others => alt e (oneOf others)

/-- Whether no path of the expression makes a step with the property. -/
def stays (moves : α → Bool) (e : Regular α) : Bool :=
  !e.any moves

/-- The expression so many times. Going nowhere more than once leads nowhere else, no path at all is
the empty one, and one path is the path itself. -/
def times (moves : α → Bool) (least : Nat) (most : Option Nat) (body : Regular α) : Regular α :=
  let (least, most) :=
    if body.stays moves then (min least 1, some ((most.map (min · 1)).getD 1)) else (least, most)
  if most = some 0 ∧ least = 0 then empty
  else if most = some 1 ∧ least = 1 then body
  else repeated least most body

/-- About how many bytes a machine for the expression takes, by the bytes of its steps. -/
def size (f : α → Nat) : Regular α → Nat
  | empty => 32
  | step a => f a
  | seq first second => first.size f + second.size f
  | alt left right => left.size f + right.size f + 40
  | repeated least none body => max least 1 * body.size f + 40
  | repeated least (some most) body => max least most * body.size f + (most - least) * 40 + 32

end Regular

/-! ## Places of a text -/

/-- A step through a text. -/
structure Move where
  /-- The places from which it can be taken. -/
  places : Nat
  /-- Whether it goes on to the next place. -/
  advances : Bool
  deriving DecidableEq

/-- Where a step leads from some places. -/
def Move.apply (move : Move) (places : Nat) : Nat :=
  let taken := places &&& move.places
  if move.advances then taken <<< 1 else taken

/-- What comes of some places by so many rounds. Once a round changes nothing no later one does. -/
def iterate (round : Nat → Nat) : Nat → Nat → Nat
  | 0, places => places
  | n + 1, places =>
    let after := round places
    if after = places then places else iterate round n after

/-- What comes of some places by at most so many rounds. -/
def gather (round : Nat → Nat) : Nat → Nat → Nat
  | 0, places => places
  | n + 1, places =>
    let after := places ||| round places
    if after = places then places else gather round n after

namespace Regular

/-- The places to which paths lead from some places, in a text with `length` characters. More
rounds than the text has places lead nowhere else. -/
def reach (length : Nat) : Regular Move → Nat → Nat
  | empty, places => places
  | step move, places => move.apply places
  | seq first second, places => second.reach length (first.reach length places)
  | alt left right, places => left.reach length places ||| right.reach length places
  | repeated least most body, places =>
    let rounds := length + 1
    let further := match most with
      | none => rounds
      | some most => min (most - least) rounds
    gather (body.reach length) further (iterate (body.reach length) (min least rounds) places)

end Regular

/-- The places of a text that have a property, by the characters around each. -/
def placesWhere (p : Option Char → Option Char → Bool) (before : Option Char) : List Char → Nat
  | [] => if p before none then 1 else 0
  | c :: rest =>
    2 * placesWhere p (some c) rest + (if p before (some c) then 1 else 0)

end Pattern

end LoopTable
