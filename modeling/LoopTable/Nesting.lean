import LoopTable.Instruction

/-!
# Nesting of loops

What it means for the loops of an image to be nested, said without any scan.

* `Balanced` is the grammar of images in which every loop is opened and closed.
* `Matched` pairs the two ends of a loop: there is a balanced image between them.
* `Unclosed` tells the loops that are still open at an address, `depthAfter` how many they are when
  none is closed too often, and `maxNesting` the greatest number of them.
* `Destination` tells the words of a table that the loops of an image call for.
-/

namespace LoopTable

/-- A byte that neither opens nor closes a loop. -/
def IsInert (byte : UInt8) : Prop :=
  byte ≠ openByte ∧ byte ≠ closeByte

/-- Images in which every loop is opened and closed, one inside or behind another. -/
inductive Balanced : List UInt8 → Prop
  | nil : Balanced []
  | inert {byte : UInt8} : IsInert byte → Balanced [byte]
  | loop {body : List UInt8} : Balanced body → Balanced (openByte :: body ++ [closeByte])
  | append {first second : List UInt8} :
      Balanced first → Balanced second → Balanced (first ++ second)

/-- The bytes between two addresses, without the ones at them. -/
def between (image : List UInt8) (opening closing : Nat) : List UInt8 :=
  (image.take closing).drop (opening + 1)

/-- The two ends of one loop. -/
structure Matched (image : List UInt8) (opening closing : Nat) : Prop where
  /-- The loop is opened before it is closed. -/
  lt : opening < closing
  /-- It is opened at the first address. -/
  opens : image[opening]? = some openByte
  /-- It is closed at the second. -/
  closes : image[closing]? = some closeByte
  /-- What is between them is balanced. -/
  balanced : Balanced (between image opening closing)

/-- A loop opened before an address and not closed before it. -/
def Unclosed (image : List UInt8) (address opening : Nat) : Prop :=
  opening < address ∧ image[opening]? = some openByte ∧
    ∀ closing, closing < address → ¬ Matched image opening closing

/-- A word that a loop closed before some address calls for: the end of the loop leads to its start,
and the start leads behind the end. -/
def Destination (image : List UInt8) (bound address value : Nat) : Prop :=
  ∃ opening closing, Matched image opening closing ∧ closing < bound ∧
    ((address = closing ∧ value = opening) ∨ (address = opening ∧ value = closing + 1))

/-- How many more loops are opened than closed among the first bytes of an image. -/
def depthAfter (image : List UInt8) (length : Nat) : Int :=
  (image.take length).count openByte - (image.take length).count closeByte

/-- The greatest number of loops open at one time, where no loop is closed that was not opened. -/
def maxNesting (image : List UInt8) : Nat :=
  (List.range (image.length + 1)).foldl (fun n k => max n (depthAfter image k).toNat) 0

/-- A balanced image opens as many loops as it closes. -/
theorem Balanced.count_eq {image : List UInt8} (h : Balanced image) :
    image.count openByte = image.count closeByte := by
  induction h with
  | nil => rfl
  | inert h => simp [h.1, h.2]
  | loop _ ih => simpa [openByte, closeByte] using ih
  | append _ _ ih₁ ih₂ => simp [List.count_append, ih₁, ih₂]

end LoopTable
