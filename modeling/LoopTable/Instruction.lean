/-!
# The instruction set

Eight instructions, each one byte long and written as one character of source text. Every other
character of a source text is a comment, and every other byte of an image is inert.

* `Instruction.ofChar?` and `Instruction.toChar` relate an instruction to its character,
  `Instruction.ofByte?` and `Instruction.toByte` to its byte.
* `assemble` and `disassemble` carry the two tables over to whole texts and images.
-/

namespace LoopTable

/-- An instruction of the eight-character loop language. -/
inductive Instruction
  | moveRight
  | moveLeft
  | increment
  | decrement
  | output
  | input
  | openLoop
  | closeLoop
  deriving DecidableEq

/-- The byte of an instruction that opens a loop. -/
def openByte : UInt8 := 6

/-- The byte of an instruction that closes a loop. -/
def closeByte : UInt8 := 7

namespace Instruction

/-- The instruction that a character of source text stands for, if it is not a comment. -/
def ofChar? : Char → Option Instruction
  | '>' => some moveRight
  | '<' => some moveLeft
  | '+' => some increment
  | '-' => some decrement
  | '.' => some output
  | ',' => some input
  | '[' => some openLoop
  | ']' => some closeLoop
  | _ => none

/-- The character that an instruction is written as. -/
def toChar : Instruction → Char
  | moveRight => '>'
  | moveLeft => '<'
  | increment => '+'
  | decrement => '-'
  | output => '.'
  | input => ','
  | openLoop => '['
  | closeLoop => ']'

/-- The instruction that a byte of an image stands for, if it is not inert. -/
def ofByte? : UInt8 → Option Instruction
  | 0 => some moveRight
  | 1 => some moveLeft
  | 2 => some increment
  | 3 => some decrement
  | 4 => some output
  | 5 => some input
  | 6 => some openLoop
  | 7 => some closeLoop
  | _ => none

/-- The byte that an instruction is assembled to. -/
def toByte : Instruction → UInt8
  | moveRight => 0
  | moveLeft => 1
  | increment => 2
  | decrement => 3
  | output => 4
  | input => 5
  | openLoop => openByte
  | closeLoop => closeByte

/-- The number of bytes an instruction takes in an image. -/
def size : Instruction → Nat
  | _ => 1

/-- Whether control can leave the straight line at this instruction. -/
def isBranch : Instruction → Bool
  | openLoop | closeLoop => true
  | _ => false

@[simp] theorem ofChar?_toChar (i : Instruction) : ofChar? i.toChar = some i := by
  cases i <;> rfl

@[simp] theorem ofByte?_toByte (i : Instruction) : ofByte? i.toByte = some i := by
  cases i <;> rfl

theorem toChar_of_ofChar? {c : Char} {i : Instruction} (h : ofChar? c = some i) :
    i.toChar = c := by
  unfold ofChar? at h
  split at h <;> simp_all [toChar] <;> subst h <;> rfl

theorem toByte_of_ofByte? {b : UInt8} {i : Instruction} (h : ofByte? b = some i) :
    i.toByte = b := by
  unfold ofByte? at h
  split at h <;> simp_all <;> subst h <;> rfl

end Instruction

/-- The image of a source text: the bytes of its instruction characters, in order. -/
def assemble (source : List Char) : List UInt8 :=
  (source.filterMap Instruction.ofChar?).map Instruction.toByte

/-- The shortest source text of an image; inert bytes have no character. -/
def disassemble (image : List UInt8) : List Char :=
  (image.filterMap Instruction.ofByte?).map Instruction.toChar

theorem assemble_append (s t : List Char) : assemble (s ++ t) = assemble s ++ assemble t := by
  simp [assemble]

theorem disassemble_append (b c : List UInt8) :
    disassemble (b ++ c) = disassemble b ++ disassemble c := by
  simp [disassemble]

end LoopTable
