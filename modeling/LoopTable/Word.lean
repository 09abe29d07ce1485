/-!
# The words of a destination table

A destination table holds one 16-bit word per instruction address. The word of address `a` stands
at bytes `2 * a` and `2 * a + 1`, low byte first.

* `Word.encode` gives the two bytes of a word, `Word.ofBytes` the word of two bytes.
* `Word.decode?` reads the word of an address, if the table reaches that far.
-/

namespace LoopTable

/-- A run of bytes: an image, a table or the content of a file. -/
abbrev Bytes := Array UInt8

namespace Word

/-- The number of bytes of a word. -/
def size : UInt64 := 2

/-- The greatest destination that a word can hold. -/
def maxDestination : UInt64 := 65535

/-- Whether some bytes are a whole number of words. -/
def isWhole (table : Bytes) : Bool :=
  table.size % 2 == 0

/-- The two bytes of a word, low byte first. -/
def encode (w : UInt16) : List UInt8 :=
  [UInt8.ofNat (w.toNat % 256), UInt8.ofNat (w.toNat / 256)]

/-- The word of a low and a high byte. -/
def ofBytes (low high : UInt8) : UInt16 :=
  UInt16.ofNat (low.toNat + 256 * high.toNat)

/-- The word of an instruction address, if both of its bytes lie in the table. -/
def decode? (table : Bytes) (address : UInt64) : Option UInt16 := do
  let low ← table[2 * address.toNat]?
  let high ← table[2 * address.toNat + 1]?
  return ofBytes low high

@[simp] theorem length_encode (w : UInt16) : (encode w).length = 2 := rfl

/-- A word is read back from its two bytes. -/
theorem ofBytes_encode (w : UInt16) :
    ofBytes (UInt8.ofNat (w.toNat % 256)) (UInt8.ofNat (w.toNat / 256)) = w := by
  have h := w.toNat_lt
  apply UInt16.toNat_inj.mp
  simp [ofBytes]
  omega

end Word

end LoopTable
