/-!
# Plain text for logs

A log is plain text: what would control a terminal is left out of it. Control characters are left
out unless they are white space, and so are the sequences that start with the escape character.

A terminal can still be within a sequence when white space comes. It is shown, and so is what
follows it, up to the next control character; there the sequence goes on.

* `plainText` gives what is shown of a text.
-/

namespace LoopTable

/-- How far a terminal has read a sequence. -/
inductive Sequence
  /-- It is in no sequence. -/
  | outside
  /-- Behind the escape character. -/
  | escape
  /-- Behind the escape character and more, in front of the character that ends the sequence. -/
  | escapeEnd
  /-- Behind the opening of a command. -/
  | command
  /-- In the numbers of a command. -/
  | numbers
  /-- Behind the numbers of a command. -/
  | commandEnd
  /-- In a command that makes no sense. -/
  | senseless
  /-- Behind the opening of a text for the device. -/
  | device
  /-- In the numbers of such a text. -/
  | deviceNumbers
  /-- Behind the numbers of such a text. -/
  | deviceEnd
  /-- In a text that a string terminator ends. -/
  | string
  /-- In a text for the system, which the bell ends. -/
  | system
  deriving DecidableEq

namespace Sequence

/-- White space among the control characters. -/
def isBlankControl (c : Char) : Bool :=
  c == '\t' || c == '\n' || c == '\x0c' || c == '\r'

/-- Whether the string terminator is one of the bytes of a character, behind the first. -/
def hasTerminator (c : Char) : Bool :=
  let n := c.toNat
  (0x80 ≤ n && n % 64 == 0x1c) || (0x800 ≤ n && n / 64 % 64 == 0x1c) ||
    (0x10000 ≤ n && n / 4096 % 64 == 0x1c)

/-- Whether a character is from one code point to another. -/
def isFrom (low high : Nat) (c : Char) : Bool :=
  low ≤ c.toNat && c.toNat ≤ high

/-- How far a terminal has read once it has read another character. -/
def after (s : Sequence) (c : Char) : Sequence :=
  if c == '\x18' || c == '\x1a' then outside
  else if c == '\x1b' then escape
  else match s with
    | outside => outside
    | escape =>
      if isFrom 0x20 0x2f c then escapeEnd
      else if c == '[' then command
      else if c == ']' then system
      else if c == 'P' then device
      else if c == 'X' || c == '^' || c == '_' then string
      else if isFrom 0x30 0x7e c then outside
      else escape
    | escapeEnd => if isFrom 0x30 0x7e c then outside else escapeEnd
    | command =>
      if isFrom 0x20 0x2f c then commandEnd
      else if isFrom 0x30 0x3f c then numbers
      else if isFrom 0x40 0x7e c then outside
      else command
    | numbers =>
      if isFrom 0x20 0x2f c then commandEnd
      else if isFrom 0x3c 0x3f c then senseless
      else if isFrom 0x40 0x7e c then outside
      else numbers
    | commandEnd =>
      if isFrom 0x30 0x3f c then senseless
      else if isFrom 0x40 0x7e c then outside
      else commandEnd
    | senseless => if isFrom 0x40 0x7e c then outside else senseless
    | device =>
      if isFrom 0x20 0x2f c then deviceEnd
      else if isFrom 0x30 0x3f c then deviceNumbers
      else if isFrom 0x40 0x7e c then string
      else device
    | deviceNumbers =>
      if isFrom 0x20 0x2f c then deviceEnd
      else if isFrom 0x3c 0x7e c then string
      else deviceNumbers
    | deviceEnd => if isFrom 0x30 0x7e c then string else deviceEnd
    | string => if hasTerminator c then outside else string
    | system => if c == '\x07' then outside else system

/-- Whether a character is shown behind what a terminal has read. -/
def isShown (s : Sequence) (c : Char) : Bool :=
  match s with
  | outside => isBlankControl c || (decide (' ' ≤ c) && c != '\x7f')
  | escape | escapeEnd | command | numbers | commandEnd | senseless => isBlankControl c
  | device | deviceNumbers | deviceEnd | string | system => false

end Sequence

/-- What is shown of a text, when a terminal has read so far into a sequence. While text is being
shown, sequences wait for a control character; a character beyond ASCII ends them. -/
def plainFrom (s : Sequence) (showing : Bool) : List Char → List Char
  | [] => []
  | c :: rest =>
    if if showing then Sequence.outside.isShown c else s.isShown c then
      let s := if 0x80 ≤ c.toNat then .outside else if showing then s else s.after c
      c :: plainFrom s true rest
    else
      plainFrom (s.after c) false rest

/-- What is shown of a text. -/
def plainText (text : String) : String :=
  String.ofList (plainFrom .outside false text.toList)

end LoopTable
