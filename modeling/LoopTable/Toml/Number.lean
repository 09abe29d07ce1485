import LoopTable.Toml.Line
import LoopTable.Toml.Value

/-!
# Numbers and moments

Single underscores may stand between the digits of a number. A whole number is decimal with an
optional sign, or has base sixteen, eight or two with a mark in front and no sign; it fits into 64
bits with a sign. Dates and times are those of the calendar.

* `integer`, `real` and `moment` read the three kinds.
-/

namespace LoopTable.Toml

/-! ## Digits -/

/-- The digits at the front of a text, with single underscores between them left out. -/
def moreDigits (isOne : Char → Bool) : List Char → List Char × List Char
  | [] => ([], [])
  | '_' :: c :: rest =>
    if isOne c then
      let (digits, rest) := moreDigits isOne rest
      (c :: digits, rest)
    else
      ([], '_' :: c :: rest)
  | c :: rest =>
    if isOne c then
      let (digits, rest) := moreDigits isOne rest
      (c :: digits, rest)
    else
      ([], c :: rest)

/-- Reads one digit or more. -/
def digits (isOne : Char → Bool) : Reader (List Char)
  | [] => none
  | c :: rest =>
    if isOne c then
      let (more, rest) := moreDigits isOne rest
      some (c :: more, rest)
    else
      none

/-- Reads an optional sign; it says whether the sign is a minus. -/
def sign : List Char → Bool × List Char
  | '+' :: rest => (false, rest)
  | '-' :: rest => (true, rest)
  | s => (false, s)

/-- Reads decimal digits that do not start with a needless zero. -/
def decimal : Reader (List Char)
  | '0' :: rest => some (['0'], rest)
  | s => digits isDigit s

/-! ## Whole numbers -/

/-- The whole number, if it fits into 64 bits with a sign. -/
def integer? (n : Int) : Option Value :=
  if Int64.minValue.toInt ≤ n ∧ n ≤ Int64.maxValue.toInt then some (.integer n) else none

/-- Reads the digits of a whole number of a base, behind its mark. -/
def based (base : Nat) (isOne : Char → Bool) : Reader Value := fun s => do
  let (ds, rest) ← digits isOne s
  return (← integer? (number base ds), rest)

/-- Reads a whole number. -/
def integer : Reader Value
  | '0' :: 'x' :: rest => based 16 (fun c => (hexDigit? c).isSome) rest
  | '0' :: 'o' :: rest => based 8 (fun c => decide ('0' ≤ c) && decide (c ≤ '7')) rest
  | '0' :: 'b' :: rest => based 2 (fun c => c == '0' || c == '1') rest
  | s => do
    let (negative, s) := sign s
    let (ds, rest) ← decimal s
    let n : Int := number 10 ds
    return (← integer? (if negative then -n else n), rest)

/-! ## Real numbers -/

/-- Reads the exponent of a real number, with its mark. -/
def exponent : Reader Int
  | c :: s =>
    if c == 'e' || c == 'E' then do
      let (negative, s) := sign s
      let (ds, rest) ← digits isDigit s
      let n : Int := number 10 ds
      return (if negative then -n else n, rest)
    else
      none
  | [] => none

/-- Reads an exponent if there is a mark of one. -/
def exponentIfMarked : Reader Int
  | c :: s => if c == 'e' || c == 'E' then exponent (c :: s) else some (0, c :: s)
  | [] => some (0, [])

/-- Reads what follows the whole part of a real number: the digits of its fraction, its exponent or
both. -/
def fraction : Reader (List Char × Int)
  | '.' :: s => do
    let (ds, s) ← digits isDigit s
    let (power, rest) ← exponentIfMarked s
    return ((ds, power), rest)
  | s => do
    let (power, rest) ← exponent s
    return (([], power), rest)

/-- Reads a real number that is written with digits, if a double can hold it. -/
def finite : Reader Real := fun s => do
  let (negative, s) := sign s
  let (whole, s) ← decimal s
  let ((part, power), rest) ← fraction s
  let x := Real.decimal negative (number 10 (whole ++ part)) (power - part.length)
  if x.isTooLarge then none
  else return (x, rest)

/-- Reads infinity, or what is not a number, with an optional sign. -/
def special : Reader Real := fun s =>
  match sign s with
  | (negative, 'i' :: 'n' :: 'f' :: rest) => some (.infinite negative, rest)
  | (_, 'n' :: 'a' :: 'n' :: rest) => some (.undefined, rest)
  | _ => none

/-- Reads a real number. -/
def real : Reader Value := fun s => do
  let (x, rest) ← (finite s).or (special s)
  return (.real x, rest)

/-! ## Moments -/

/-- Reads so many digits and no others. -/
def fixedDigits : Nat → Reader (List Char)
  | 0, s => some ([], s)
  | _ + 1, [] => none
  | n + 1, c :: s =>
    if isDigit c then do
      let (ds, rest) ← fixedDigits n s
      return (c :: ds, rest)
    else
      none

/-- Reads a number of so many digits that lies between two bounds. -/
def field (width low high : Nat) : Reader Nat := fun s => do
  let (ds, rest) ← fixedDigits width s
  let n := number 10 ds
  if low ≤ n ∧ n ≤ high then return (n, rest)
  else none

/-- The text behind a character, if it starts with it. -/
def skip? (c : Char) : List Char → Option (List Char)
  | d :: rest => if c == d then some rest else none
  | [] => none

/-- The number of days of a month. -/
def daysOf (year month : Nat) : Nat :=
  if month = 2 then
    if year % 4 = 0 ∧ (year % 100 ≠ 0 ∨ year % 400 = 0) then 29 else 28
  else if month ∈ [4, 6, 9, 11] then 30
  else 31

/-- Reads a date. -/
def date : Reader Date := fun s => do
  let (year, s) ← field 4 0 9999 s
  let s ← skip? '-' s
  let (month, s) ← field 2 1 12 s
  let s ← skip? '-' s
  let (day, s) ← field 2 1 (daysOf year month) s
  return (⟨year, month, day⟩, s)

/-- Reads a time of day, with an optional fraction of a second. -/
def time : Reader Time := fun s => do
  let (hour, s) ← field 2 0 23 s
  let s ← skip? ':' s
  let (minute, s) ← field 2 0 59 s
  let s ← skip? ':' s
  let (second, s) ← field 2 0 60 s
  match s with
  | '.' :: s =>
    let fraction := s.takeWhile isDigit
    if fraction.isEmpty then none
    else return (⟨hour, minute, second, fraction⟩, s.dropWhile isDigit)
  | s => return (⟨hour, minute, second, []⟩, s)

/-- Reads a distance from universal time. -/
def offset : Reader Int
  | 'Z' :: rest => some (0, rest)
  | 'z' :: rest => some (0, rest)
  | c :: s =>
    if c == '+' || c == '-' then do
      let (hour, s) ← field 2 0 23 s
      let s ← skip? ':' s
      let (minute, s) ← field 2 0 59 s
      let n : Int := 60 * hour + minute
      return (if c == '-' then -n else n, s)
    else
      none
  | [] => none

/-- Reads the time of day that belongs to a date, if there is one. -/
def timeOfDate : Reader Time
  | c :: s => if c == 'T' || c == 't' || c == ' ' then time s else none
  | [] => none

/-- Reads a moment: a date, a time of day, or both with an optional offset. -/
def moment : Reader Moment := fun s =>
  match date s with
  | some (date, s) =>
    match timeOfDate s with
    | some (time, s) =>
      match offset s with
      | some (offset, s) => some (⟨some date, some time, some offset⟩, s)
      | none => some (⟨some date, some time, none⟩, s)
    | none => some (⟨some date, none, none⟩, s)
  | none =>
    match time s with
    | some (time, s) => some (⟨none, some time, none⟩, s)
    | none => none

/-- Reads a number or a moment. -/
def numeral : Reader Value := fun s =>
  match moment s with
  | some (m, rest) => some (.moment m, rest)
  | none => (real s).or (integer s)

end LoopTable.Toml
