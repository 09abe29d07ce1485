/-!
# Values of a configuration text

A configuration text in the TOML format describes a table of named values, some of which are tables
or arrays themselves. This file holds the values; how they are written is the matter of the files
beside it.

* `Value` is a value and `Table` a table, which remembers how it came about (`Origin`): this
  decides what a text may still add to it.
* `Real.isTooLarge` tells the numbers that are beyond the largest finite double.
-/

namespace LoopTable.Toml

/-! ## Scalars -/

/-- A real number as it is written. -/
inductive Real
  /-- The number `digits * 10 ^ exponent`, with a sign. -/
  | decimal (negative : Bool) (digits : Nat) (exponent : Int)
  /-- Infinity, with a sign. -/
  | infinite (negative : Bool)
  /-- Not a number. -/
  | undefined
  deriving DecidableEq

namespace Real

/-- The least number that rounds to more than any finite double: half a unit above the largest. -/
def overflow : Nat :=
  Nat.pow 2 1024 - Nat.pow 2 970

/-- Whether a positive number is beyond the largest finite double. -/
def isTooLarge : Real → Bool
  | decimal false digits exponent =>
    let magnitude := (Nat.toDigits 10 digits).length + exponent
    if digits = 0 ∨ magnitude < 300 then
      false
    else if 400 < magnitude then
      true
    else if 0 ≤ exponent then
      overflow ≤ digits * Nat.pow 10 exponent.toNat
    else
      overflow * Nat.pow 10 (-exponent).toNat ≤ digits
  | _ => false

end Real

/-- A day of the calendar. -/
structure Date where
  /-- The year. -/
  year : Nat
  /-- The month, from 1. -/
  month : Nat
  /-- The day of the month, from 1. -/
  day : Nat
  deriving DecidableEq

/-- A time of day. -/
structure Time where
  /-- The hour. -/
  hour : Nat
  /-- The minute. -/
  minute : Nat
  /-- The second, which is 60 in a leap second. -/
  second : Nat
  /-- The digits of the fraction of a second. -/
  fraction : List Char
  deriving DecidableEq

/-- A point in time, as far as it is given. -/
structure Moment where
  /-- The day. -/
  date : Option Date
  /-- The time of day. -/
  time : Option Time
  /-- The distance from universal time, in minutes. -/
  offset : Option Int
  deriving DecidableEq

/-! ## Values and tables -/

/-- How a table came about. -/
inductive Origin
  /-- It has a header of its own, or is the whole text. -/
  | header
  /-- It stands in front of the last name of a header. -/
  | implied
  /-- It stands in front of the last name of a dotted key. -/
  | dotted
  /-- It is written between braces. -/
  | braces
  deriving DecidableEq

mutual

/-- A value. -/
inductive Value
  | string (text : String)
  | integer (number : Int)
  | real (number : Real)
  | boolean (truth : Bool)
  | moment (moment : Moment)
  | array (items : List Value)
  | table (table : Table)
  /-- The tables of one repeated header, the latest and those before it. -/
  | tables (latest : Table) (earlier : List Table)

/-- A table: how it came about, and its values by key. -/
inductive Table
  | mk (origin : Origin) (entries : List (String × Value))

end

namespace Table

/-- How a table came about. -/
def origin : Table → Origin
  | mk origin _ => origin

/-- The values of a table, by key. -/
def entries : Table → List (String × Value)
  | mk _ entries => entries

/-- A table without values. -/
def empty (origin : Origin) : Table :=
  mk origin []

/-- The same table with another origin. -/
def withOrigin (origin : Origin) (t : Table) : Table :=
  mk origin t.entries

/-- The value of a key. -/
def get? (t : Table) (key : String) : Option Value :=
  (t.entries.find? (·.1 == key)).map (·.2)

/-- Gives a key a value, in place of the one it had. -/
def set (t : Table) (key : String) (value : Value) : Table :=
  mk t.origin ((key, value) :: t.entries.filter (·.1 != key))

/-- Gives a key a value, if it has none. -/
def add? (t : Table) (key : String) (value : Value) : Option Table :=
  match t.get? key with
  | some _ => none
  | none => some (t.set key value)

end Table

end LoopTable.Toml
