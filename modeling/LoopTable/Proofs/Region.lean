import LoopTable.Memory

/-!
# Words in regions

What writing does to a region of bytes, told word by word. A region is faithful if it stores what it
accepts and nothing else (`Writable.Faithful`). It is honest if it stores bytes and answers for them
as plain bytes do (`Writable.Honest`); plain bytes and memory blocks are (`Writable.honest_bytes`,
`Writable.honest_block`).

* `Bytes.HoldsWord` says which word stands at an address, and `Bytes.Rewritten` that a table differs
  from an earlier one by some words exactly.
* A word sent to an honest region is accepted if it lies inside (`Writable.Honest.put_word`), and
  adds one entry to what is rewritten (`Bytes.Rewritten.overwrite`).
* `Readable.Reflects` says that a region answers with the bytes of an image, wherever it answers.
-/

namespace LoopTable

namespace Bytes

/-! ## Bytes written over -/

theorem getElem?_overwrite_of_lt (bytes : Bytes) {i j : Nat} (data : List UInt8) (h : j < i) :
    (bytes.overwrite i data)[j]? = bytes[j]? := by
  induction data generalizing bytes i with
  | nil => rfl
  | cons byte data ih =>
    rw [overwrite, ih _ (Nat.lt_succ_of_lt h), Array.getElem?_setIfInBounds_ne (Nat.ne_of_gt h)]

/-- Where bytes are written over, the new ones stand, and elsewhere the old ones. -/
theorem getElem?_overwrite (bytes : Bytes) {i : Nat} (data : List UInt8)
    (h : i + data.length ≤ bytes.size) (j : Nat) :
    (bytes.overwrite i data)[j]? =
      if i ≤ j ∧ j < i + data.length then data[j - i]? else bytes[j]? := by
  induction data generalizing bytes i with
  | nil =>
    rw [overwrite, if_neg (by simp only [List.length_nil]; omega)]
  | cons byte data ih =>
    rw [List.length_cons] at h
    rw [overwrite, List.length_cons]
    rcases Nat.lt_trichotomy j i with hlt | rfl | hgt
    · rw [getElem?_overwrite_of_lt _ data (Nat.lt_succ_of_lt hlt),
        Array.getElem?_setIfInBounds_ne (Nat.ne_of_gt hlt), if_neg (by omega)]
    · rw [getElem?_overwrite_of_lt _ data (Nat.lt_succ_self j),
        Array.getElem?_setIfInBounds_self_of_lt (by omega), if_pos (by omega), Nat.sub_self]
      rfl
    · rw [ih _ (by rw [Array.size_setIfInBounds]; omega),
        Array.getElem?_setIfInBounds_ne (Nat.ne_of_lt hgt)]
      obtain ⟨n, rfl⟩ : ∃ n, j = i + 1 + n := ⟨j - (i + 1), by omega⟩
      have hnew : i + 1 + n - (i + 1) = n := by omega
      have hold : i + 1 + n - i = n + 1 := by omega
      rw [hnew, hold, List.getElem?_cons_succ]
      by_cases hin : n < data.length
      · rw [if_pos (by omega), if_pos (by omega)]
      · rw [if_neg (by omega), if_neg (by omega)]

/-! ## Words at addresses -/

/-- The word of an address, low byte first. -/
structure HoldsWord (bytes : Bytes) (address value : Nat) : Prop where
  /-- The value fits into a word. -/
  lt : value < 65536
  /-- The low byte comes first. -/
  low : bytes[2 * address]? = some (UInt8.ofNat (value % 256))
  /-- The high byte comes second. -/
  high : bytes[2 * address + 1]? = some (UInt8.ofNat (value / 256))

theorem encode_ofNat {value : Nat} (h : value < 65536) :
    Word.encode (UInt64.ofNat value).toUInt16 =
      [UInt8.ofNat (value % 256), UInt8.ofNat (value / 256)] := by
  have hvalue : (UInt64.ofNat value).toUInt16.toNat = value := by
    rw [UInt64.toNat_toUInt16, UInt64.toNat_ofNat']
    omega
  rw [Word.encode, hvalue]

/-- A word that stands at an address is what is decoded there. -/
theorem HoldsWord.decode?_eq {bytes : Bytes} {address value : Nat}
    (h : bytes.HoldsWord address value) (ha : address < UInt64.size) :
    Word.decode? bytes (UInt64.ofNat address) = some (UInt16.ofNat value) := by
  have hv := h.lt
  rw [Word.decode?, UInt64.toNat_ofNat_of_lt' ha, h.low, h.high]
  show some (Word.ofBytes _ _) = _
  rw [Word.ofBytes, UInt8.toNat_ofNat', UInt8.toNat_ofNat']
  congr 2
  omega

/-- A table differs from an earlier one by the words of some entries, and in no other byte. -/
structure Rewritten (before after : Bytes) (entry : Nat → Nat → Prop) : Prop where
  /-- The size is the same. -/
  size_eq : after.size = before.size
  /-- The word of every entry stands at its address. -/
  holds : ∀ a v, entry a v → after.HoldsWord a v
  /-- A byte outside of all entries is as it was. -/
  frame : ∀ i, (∀ v, ¬ entry (i / 2) v) → after[i]? = before[i]?

namespace Rewritten

variable {before after : Bytes} {entry entry' : Nat → Nat → Prop}

theorem refl (bytes : Bytes) : Rewritten bytes bytes fun _ _ => False :=
  ⟨rfl, fun _ _ h => h.elim, fun _ _ => rfl⟩

theorem congr (h : Rewritten before after entry) (heq : ∀ a v, entry a v ↔ entry' a v) :
    Rewritten before after entry' := by
  have : entry = entry' := funext fun a => funext fun v => propext (heq a v)
  exact this ▸ h

/-- One word more, at an address that had no entry. -/
theorem overwrite (h : Rewritten before after entry) {a v : Nat} (hv : v < 65536)
    (ha : 2 * a + 2 ≤ after.size) (hfree : ∀ u, ¬ entry a u) :
    Rewritten before
      (after.overwrite (2 * a) [UInt8.ofNat (v % 256), UInt8.ofNat (v / 256)])
      fun b u => entry b u ∨ (b = a ∧ u = v) where
  size_eq := by rw [size_overwrite, h.size_eq]
  holds := by
    rintro b u (hu | ⟨rfl, rfl⟩)
    · have hold := h.holds b u hu
      have hne : b ≠ a := by
        rintro rfl
        exact hfree u hu
      refine ⟨hold.lt, ?_, ?_⟩
      · rw [getElem?_overwrite _ _ ha, if_neg (by simp only [List.length]; omega), hold.low]
      · rw [getElem?_overwrite _ _ ha, if_neg (by simp only [List.length]; omega), hold.high]
    · refine ⟨hv, ?_, ?_⟩
      · rw [getElem?_overwrite _ _ ha, if_pos (by simp only [List.length]; omega), Nat.sub_self]
        rfl
      · rw [getElem?_overwrite _ _ ha, if_pos (by simp only [List.length]; omega),
          Nat.add_sub_cancel_left]
        rfl
  frame := by
    intro i hi
    have hne : i / 2 ≠ a := by
      rintro rfl
      exact hi v (Or.inr ⟨rfl, rfl⟩)
    rw [getElem?_overwrite _ _ ha, if_neg (by simp only [List.length]; omega)]
    exact h.frame i fun u hu => hi u (Or.inl hu)

end Rewritten

end Bytes

/-! ## Regions that reflect an image -/

/-- A region to read from that answers with the bytes of an image, wherever it answers at all. -/
def Readable.Reflects (region : Readable) (image : Bytes) : Prop :=
  ∀ offset byte, region.read offset = .ok byte → image[offset.toNat]? = some byte

theorem Bytes.read_eq_ok_iff {bytes : Bytes} {offset : UInt64} {byte : UInt8} :
    bytes.read offset = .ok byte ↔ bytes[offset.toNat]? = some byte := by
  cases h : bytes[offset.toNat]? <;> simp [Bytes.read, h]

theorem Readable.reflects_ofBytes (image : Bytes) : (Readable.ofBytes image).Reflects image :=
  fun _ _ h => Bytes.read_eq_ok_iff.1 h

namespace Readable.Reflects

variable {region : Readable} {image : Bytes}

theorem claiming (h : region.Reflects image) (size : UInt64) :
    (region.claiming size).Reflects image := h

theorem failingFrom (h : region.Reflects image) (start : UInt64) (fault : Fault) :
    (region.failingFrom start fault).Reflects image := by
  intro offset byte hread
  by_cases hstart : start ≤ offset
  · simp [Readable.failingFrom, hstart] at hread
  · simp only [Readable.failingFrom, hstart, if_false] at hread
    exact h offset byte hread

end Readable.Reflects

/-! ## Faithful and honest regions -/

/-- The offset of a word is twice its address. -/
theorem Word.toNat_offset {a : Nat} (h : 2 * a < UInt64.size) :
    (UInt64.ofNat a * Word.size).toNat = 2 * a := by
  rw [UInt64.toNat_mul, UInt64.toNat_ofNat_of_lt' (by omega)]
  show a * 2 % UInt64.size = 2 * a
  rw [Nat.mod_eq_of_lt (by omega), Nat.mul_comm]

/-- Halving the size of a table, rounded down, does not blur the comparison with an image. -/
theorem Word.div_size_lt_iff {a b : UInt64} : a / Word.size < b ↔ a.toNat < 2 * b.toNat := by
  rw [UInt64.lt_iff_toNat_lt, UInt64.toNat_div]
  show a.toNat / 2 < b.toNat ↔ _
  omega

/-- A region that stores bytes. What it accepts lies inside and is written over them, and what it
refuses changes nothing; which writes it refuses is left open. -/
structure Writable.Faithful {σ : Type} (w : Writable σ) (view : σ → Bytes) : Prop where
  /-- A write that is accepted lies inside. -/
  inside : ∀ offset data s, (w.put offset data s).1 = .ok () →
    offset.toNat + data.length ≤ (view s).size
  /-- It is written over the bytes. -/
  accepted : ∀ offset data s, (w.put offset data s).1 = .ok () →
    view (w.put offset data s).2 = (view s).overwrite offset.toNat data
  /-- A write that is refused changes nothing. -/
  refused : ∀ offset data s fault, (w.put offset data s).1 = .error fault →
    view (w.put offset data s).2 = view s

/-- A word that is accepted lies inside the region and is written over its two bytes. -/
theorem Writable.Faithful.put_word {σ : Type} {w : Writable σ} {view : σ → Bytes} {s : σ}
    {a v : Nat} (hw : w.Faithful view) (ha : 2 * a < UInt64.size) (hv : v < 65536)
    (hok : (w.put (UInt64.ofNat a * Word.size) (Word.encode (UInt64.ofNat v).toUInt16) s).1 =
      .ok ()) :
    2 * a + 2 ≤ (view s).size ∧
      view (w.put (UInt64.ofNat a * Word.size) (Word.encode (UInt64.ofNat v).toUInt16) s).2 =
        (view s).overwrite (2 * a) [UInt8.ofNat (v % 256), UInt8.ofNat (v / 256)] := by
  have hinside := hw.inside _ _ _ hok
  rw [Word.toNat_offset ha, Word.length_encode] at hinside
  rw [hw.accepted _ _ _ hok, Word.toNat_offset ha, Bytes.encode_ofNat hv]
  exact ⟨hinside, rfl⟩

/-- A region that stores bytes, claims as many as it stores and writes as plain bytes do. -/
structure Writable.Honest {σ : Type} (w : Writable σ) (view : σ → Bytes) : Prop where
  /-- It claims the number of bytes that it stores. -/
  size_eq : ∀ s, w.size s = UInt64.ofNat (view s).size
  /-- It answers a write as its bytes do. -/
  answer_eq : ∀ offset data s, (w.put offset data s).1 = ((view s).put offset data).1
  /-- It stores what its bytes would hold. -/
  view_put : ∀ offset data s, view (w.put offset data s).2 = ((view s).put offset data).2

theorem Writable.honest_bytes : Writable.bytes.Honest id :=
  ⟨fun _ => rfl, fun _ _ _ => rfl, fun _ _ _ => rfl⟩

theorem Writable.honest_block : Writable.block.Honest Block.bytes :=
  ⟨fun _ => rfl, fun _ _ _ => rfl, fun _ _ _ => rfl⟩

namespace Writable.Honest

variable {σ : Type} {w : Writable σ} {view : σ → Bytes} {s : σ} {a v : Nat}

theorem answer_eq_ok_iff (hw : w.Honest view) (offset : UInt64) (data : List UInt8) (s : σ) :
    (w.put offset data s).1 = .ok () ↔ offset.toNat + data.length ≤ (view s).size := by
  rw [hw.answer_eq]
  rcases Nat.lt_or_ge (view s).size (offset.toNat + data.length) with hlt | hle
  · simp [Bytes.put_of_lt hlt, hlt]
  · simp [Bytes.put_of_le hle, hle]

theorem faithful (hw : w.Honest view) : w.Faithful view where
  inside := fun offset data s => (hw.answer_eq_ok_iff offset data s).1
  accepted := by
    intro offset data s hok
    rw [hw.view_put, Bytes.put_of_le ((hw.answer_eq_ok_iff offset data s).1 hok)]
  refused := by
    intro offset data s fault hfault
    have hlt : (view s).size < offset.toNat + data.length := by
      refine Nat.lt_of_not_le fun hle => ?_
      rw [(hw.answer_eq_ok_iff offset data s).2 hle] at hfault
      cases hfault
    rw [hw.view_put, Bytes.put_of_lt hlt]

/-- A word that lies inside the region is accepted and written over its two bytes. -/
theorem put_word (hw : w.Honest view) (hsize : (view s).size < UInt64.size) (hv : v < 65536)
    (ha : 2 * a + 2 ≤ (view s).size) :
    (w.put (UInt64.ofNat a * Word.size) (Word.encode (UInt64.ofNat v).toUInt16) s).1 = .ok () ∧
      view (w.put (UInt64.ofNat a * Word.size) (Word.encode (UInt64.ofNat v).toUInt16) s).2 =
        (view s).overwrite (2 * a) [UInt8.ofNat (v % 256), UInt8.ofNat (v / 256)] := by
  have hoffset : (UInt64.ofNat a * Word.size).toNat = 2 * a := Word.toNat_offset (by omega)
  have hfits : (UInt64.ofNat a * Word.size).toNat +
      (Word.encode (UInt64.ofNat v).toUInt16).length ≤ (view s).size := by
    rw [hoffset, Word.length_encode]
    exact ha
  rw [hw.answer_eq, hw.view_put, Bytes.put_of_le hfits, hoffset, Bytes.encode_ofNat hv]
  exact ⟨rfl, rfl⟩

end Writable.Honest

/-- A table in memory with at least two bytes for each instruction of an image. -/
structure HasRoom (image table : Bytes) : Prop where
  /-- There is a word for each instruction. -/
  enough : 2 * image.size ≤ table.size
  /-- Addresses have 64 bits. -/
  addressable : table.size < UInt64.size

theorem HasRoom.image_lt {image table : Bytes} (h : HasRoom image table) :
    image.size < UInt64.size := by
  have henough := h.enough
  have hsmall := h.addressable
  omega

end LoopTable
