/-!
# Numerals in messages

Addresses are written in base sixteen. `Numeral.hex` writes the digits of a number without leading
zeros, `Numeral.padLeft` fills a text up to a width.
-/

namespace LoopTable.Numeral

/-- The base sixteen digits of a number, in lower case and without leading zeros. -/
def hex (n : Nat) : String :=
  String.ofList (Nat.toDigits 16 n)

/-- The base sixteen digits of a number, in upper case and without leading zeros. -/
def hexUpper (n : Nat) : String :=
  String.ofList ((Nat.toDigits 16 n).map Char.toUpper)

/-- The text, with copies of `fill` put in front until it has `width` characters. -/
def padLeft (fill : Char) (width : Nat) (text : String) : String :=
  String.ofList (List.replicate (width - text.length) fill ++ text.toList)

/-- The text, with blanks added at the end until it has `width` characters. -/
def padRight (width : Nat) (text : String) : String :=
  String.ofList (text.toList ++ List.replicate (width - text.length) ' ')

end LoopTable.Numeral
