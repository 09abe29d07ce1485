import LoopTable.Word
import LoopTable.Fault

/-!
# Byte regions

A region is a run of bytes addressed from zero. A scan sees regions only through what they claim
and answer: `Readable` is a region to read from, `Writable` one to write to, whose state lives
outside of it. Plain bytes are regions that claim their true size (`Readable.ofBytes`,
`Writable.bytes`); `claiming` and `failingFrom` make a region lie about its size or fail from an
offset on.

* `Bytes.read` and `Bytes.put` serve an access exactly when it lies inside the bytes; a refused
  `put` changes nothing (`Bytes.put_of_lt`), and none changes the size (`Bytes.size_put`).
-/

namespace LoopTable

/-! ## Plain bytes -/

namespace Bytes

/-- The byte at an offset, or the fault of an access outside of the bytes. -/
def read (bytes : Bytes) (offset : UInt64) : Except Fault UInt8 :=
  match bytes[offset.toNat]? with
  | some byte => .ok byte
  | none => .error (.outOfRegion offset 1 bytes.size)

/-- The bytes with `data` written over them from position `i` on. -/
def overwrite (bytes : Bytes) (i : Nat) : List UInt8 → Bytes
  | [] => bytes
  | byte :: data => overwrite (bytes.setIfInBounds i byte) (i + 1) data

/-- Writes `data` at an offset if all of it lies inside the bytes, else nothing. -/
def put (bytes : Bytes) (offset : UInt64) (data : List UInt8) : Except Fault Unit × Bytes :=
  if offset.toNat + data.length ≤ bytes.size then
    (.ok (), bytes.overwrite offset.toNat data)
  else
    (.error (.outOfRegion offset data.length bytes.size), bytes)

/-- As many zero bytes as asked for. -/
def zeros (n : Nat) : Bytes :=
  Array.replicate n 0

@[simp] theorem size_overwrite (bytes : Bytes) (i : Nat) (data : List UInt8) :
    (bytes.overwrite i data).size = bytes.size := by
  induction data generalizing bytes i with
  | nil => rfl
  | cons byte data ih => simp [overwrite, ih]

@[simp] theorem size_put (bytes : Bytes) (offset : UInt64) (data : List UInt8) :
    (bytes.put offset data).2.size = bytes.size := by
  unfold put
  split <;> simp

theorem put_of_le {bytes : Bytes} {offset : UInt64} {data : List UInt8}
    (h : offset.toNat + data.length ≤ bytes.size) :
    bytes.put offset data = (.ok (), bytes.overwrite offset.toNat data) :=
  if_pos h

theorem put_of_lt {bytes : Bytes} {offset : UInt64} {data : List UInt8}
    (h : bytes.size < offset.toNat + data.length) :
    bytes.put offset data = (.error (.outOfRegion offset data.length bytes.size), bytes) :=
  if_neg (Nat.not_le.mpr h)

end Bytes

/-! ## Regions to read from -/

/-- A region to read from: the size it claims and its answer at each offset. -/
structure Readable where
  /-- The number of bytes the region claims to hold. -/
  size : UInt64
  /-- The byte at an offset, or the reason why there is none. -/
  read : UInt64 → Except Fault UInt8

namespace Readable

/-- Plain bytes, which claim their true size. -/
def ofBytes (bytes : Bytes) : Readable where
  size := UInt64.ofNat bytes.size
  read := bytes.read

/-- The same region under another claimed size. -/
def claiming (region : Readable) (size : UInt64) : Readable :=
  { region with size }

/-- The same region, failing at every offset from `start` on. -/
def failingFrom (region : Readable) (start : UInt64) (fault : Fault) : Readable :=
  { region with
    read := fun offset => if start ≤ offset then .error fault else region.read offset }

end Readable

/-! ## Regions to write to -/

/-- A region to write to, with states in `σ`: the size it claims and what a write does. -/
structure Writable (σ : Type) where
  /-- The number of bytes the region claims to hold. -/
  size : σ → UInt64
  /-- The result of writing bytes at an offset, and the state after it. -/
  put : UInt64 → List UInt8 → σ → Except Fault Unit × σ

namespace Writable

variable {σ : Type}

/-- Plain bytes, which claim their true size. -/
def bytes : Writable Bytes where
  size := fun held => UInt64.ofNat held.size
  put := fun offset data held => held.put offset data

/-- The same region under another claimed size. -/
def claiming (region : Writable σ) (size : UInt64) : Writable σ :=
  { region with size := fun _ => size }

/-- The same region, failing untouched at every offset from `start` on. -/
def failingFrom (region : Writable σ) (start : UInt64) (fault : Fault) : Writable σ :=
  { region with
    put := fun offset data held =>
      if start ≤ offset then (.error fault, held) else region.put offset data held }

end Writable

end LoopTable
