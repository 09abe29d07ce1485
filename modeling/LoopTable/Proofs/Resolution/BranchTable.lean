import LoopTable.Proofs.Resolution.Pairing

/-!
# The table of an image

The table that an image has by itself (`branchTable`) is fixed by the image word by word, which is
what everything about such tables is derived from (`branchTable_eq_ok_iff`).

* `Slot` tells the word of each instruction, also where an image stands behind other instructions,
  whose number is then added to its destinations. Every instruction of a balanced image has one
  (`Balanced.exists_slot`), and it keeps it when other instructions follow (`Slot.inside`).
* `IsTable` says that a table consists of these words. So the table of an image is found again
  inside that of a longer one (`IsTable.extract`).
-/

namespace LoopTable

/-! ## Tables, word by word -/

namespace Bytes

variable {table table' : Bytes}

/-- Tables with the same words are the same. -/
theorem ext_words {n : Nat} (hsize : table.size = 2 * n) (hsize' : table'.size = 2 * n)
    (hwords : ∀ a < n, ∃ v, table.HoldsWord a v ∧ table'.HoldsWord a v) : table = table' := by
  refine Array.ext_getElem? fun i => ?_
  rcases Nat.lt_or_ge i (2 * n) with hi | hi
  · obtain ⟨v, h, h'⟩ := hwords (i / 2) (by omega)
    rcases Nat.mod_two_eq_zero_or_one i with heven | hodd
    · have hlow : i = 2 * (i / 2) := by omega
      rw [hlow, h.low, h'.low]
    · have hhigh : i = 2 * (i / 2) + 1 := by omega
      rw [hhigh, h.high, h'.high]
  · rw [Array.getElem?_eq_none (by omega), Array.getElem?_eq_none (by omega)]

/-- A word of a table is one of a part of it, counted from where the part begins. -/
theorem HoldsWord.extract {k n a v : Nat} (h : table.HoldsWord (k + a) v) (ha : a < n)
    (hsize : 2 * (k + n) ≤ table.size) :
    Bytes.HoldsWord (table.extract (2 * k) (2 * (k + n))) a v := by
  refine ⟨h.lt, ?_, ?_⟩
  · rw [Array.getElem?_extract, if_pos (by omega), ← Nat.mul_add, h.low]
  · rw [Array.getElem?_extract, if_pos (by omega), ← Nat.add_assoc, ← Nat.mul_add, h.high]

/-- The words of a table fit into 16 bits. -/
theorem lt_of_words_eq {a v : Nat} (h : table.words a = some v) : v < 65536 := by
  obtain ⟨word, -, rfl⟩ := Option.map_eq_some_iff.1 h
  exact word.toNat_lt

/-- A table has words only where it has bytes. -/
theorem words_eq_none {a : Nat} (ha : a < UInt64.size) (hsize : table.size ≤ 2 * a) :
    table.words a = none := by
  rw [words, Word.decode?, UInt64.toNat_ofNat_of_lt' ha, Array.getElem?_eq_none hsize]
  rfl

theorem size_zeros (n : Nat) : (zeros n).size = n :=
  Array.size_replicate

theorem getElem?_zeros {n i : Nat} (h : i < n) : (zeros n)[i]? = some 0 := by
  rw [zeros, Array.getElem?_replicate, if_pos h]

end Bytes

/-! ## The word of each instruction -/

/-- The word that the instruction at an address of an image has, when the image stands behind `base`
other instructions. -/
inductive Slot (image : List UInt8) (base : Nat) : Nat → Nat → Prop
  /-- The start of a loop leads behind its end. -/
  | start {o c : Nat} : Matched image o c → Slot image base o (base + (c + 1))
  /-- The end of a loop leads to its start. -/
  | stop {o c : Nat} : Matched image o c → Slot image base c (base + o)
  /-- Any other instruction leads nowhere. -/
  | inert {a : Nat} {byte : UInt8} : image[a]? = some byte → IsInert byte → Slot image base a 0

theorem Slot.lt_length {image : List UInt8} {base a v : Nat} (h : Slot image base a v) :
    a < image.length := by
  cases h with
  | start hm => exact Nat.lt_trans hm.lt hm.closing_lt_length
  | stop hm => exact hm.closing_lt_length
  | inert hbyte _ => exact (List.getElem?_eq_some_iff.1 hbyte).1

/-- Every instruction of a balanced image has a word. -/
theorem Balanced.exists_slot {image : List UInt8} (hbalanced : Balanced image) (base : Nat)
    {a : Nat} (ha : a < image.length) : ∃ v, Slot image base a v := by
  obtain ⟨closed, h⟩ := hbalanced.exists_course
  have hbyte : image[a]? = some image[a] := List.getElem?_eq_getElem ha
  by_cases hopen : image[a] = openByte
  · obtain ⟨c, hm⟩ := h.exists_closing (hopen ▸ hbyte)
    exact ⟨_, .start hm⟩
  · by_cases hclose : image[a] = closeByte
    · obtain ⟨o, hm⟩ := h.exists_opening (hclose ▸ hbyte)
      exact ⟨_, .stop hm⟩
    · exact ⟨0, .inert hbyte ⟨hopen, hclose⟩⟩

/-- The word of an instruction is what it was when others are put before and behind the image. -/
theorem Slot.inside {before image after : List UInt8} {base a v : Nat}
    (h : Slot image (base + before.length) a v) :
    Slot (before ++ image ++ after) base (before.length + a) v := by
  have hmatched : ∀ {o c : Nat}, Matched image o c →
      Matched (before ++ image ++ after) (before.length + o) (before.length + c) := by
    intro o c hm
    have hm := hm.append_right before
    exact (matched_append_iff hm.closing_lt_length).2 hm
  cases h with
  | start hm =>
    rw [Nat.add_assoc, ← Nat.add_assoc before.length]
    exact .start (hmatched hm)
  | stop hm =>
    rw [Nat.add_assoc]
    exact .stop (hmatched hm)
  | @inert _ byte hbyte hinert =>
    have ha := (List.getElem?_eq_some_iff.1 hbyte).1
    refine .inert ?_ hinert
    rw [List.append_assoc, getElem?_append_length_add, List.getElem?_append_left ha, hbyte]

/-- A table consists of the words of an image that stands behind `base` other instructions. -/
structure IsTable (image : List UInt8) (base : Nat) (table : Bytes) : Prop where
  /-- There is one word for each instruction. -/
  size_eq : table.size = 2 * image.length
  /-- It is the word that the instruction has. -/
  holds : ∀ a v, Slot image base a v → table.HoldsWord a v

namespace IsTable

variable {image : List UInt8} {base : Nat} {table : Bytes}

theorem words_eq {base a v : Nat} (h : IsTable image base table)
    (himage : image.length < UInt64.size) (hslot : Slot image base a v) :
    table.words a = some v :=
  (h.holds a v hslot).words_eq (Nat.lt_trans hslot.lt_length himage)

/-- A balanced image has one table at most. -/
theorem unique {table' : Bytes} (hbalanced : Balanced image) (h : IsTable image base table)
    (h' : IsTable image base table') : table = table' := by
  refine Bytes.ext_words h.size_eq h'.size_eq fun a ha => ?_
  obtain ⟨v, hslot⟩ := hbalanced.exists_slot base ha
  exact ⟨v, h.holds a v hslot, h'.holds a v hslot⟩

/-- The table of an image has that of a part of the image in it. -/
theorem extract {before after : List UInt8} (h : IsTable (before ++ image ++ after) base table) :
    IsTable image (base + before.length)
      (table.extract (2 * before.length) (2 * (before.length + image.length))) := by
  have hsize := h.size_eq
  rw [List.length_append, List.length_append] at hsize
  refine ⟨?_, fun a v hslot => ?_⟩
  · rw [Array.size_extract]
    omega
  · exact (h.holds _ _ hslot.inside).extract hslot.lt_length (by omega)

/-- The table of the first of two images. -/
theorem extract_left {after : List UInt8} (h : IsTable (image ++ after) base table) :
    IsTable image base (table.extract 0 (2 * image.length)) := by
  have hpart := @extract image base table [] after h
  rwa [List.length_nil, Nat.zero_add, Nat.add_zero] at hpart

/-- The table of the second of two images. -/
theorem extract_right {before : List UInt8} (h : IsTable (before ++ image) base table) :
    IsTable image (base + before.length)
      (table.extract (2 * before.length) (2 * (before.length + image.length))) := by
  rw [← List.append_nil (before ++ image)] at h
  exact h.extract

/-- Zero words rewritten for all loops of an image are the table of the image. -/
theorem of_rewritten {after : Bytes}
    (h : Bytes.Rewritten (.zeros (2 * image.length)) after (Destination image image.length)) :
    IsTable image 0 after := by
  refine ⟨by rw [h.size_eq, Bytes.size_zeros], fun a v hslot => ?_⟩
  cases hslot with
  | start hm =>
    exact h.holds _ _ ⟨_, _, hm, hm.closing_lt_length, Or.inr ⟨rfl, Nat.zero_add _⟩⟩
  | stop hm =>
    exact h.holds _ _ ⟨_, _, hm, hm.closing_lt_length, Or.inl ⟨rfl, Nat.zero_add _⟩⟩
  | @inert _ byte hbyte hinert =>
    have ha := (List.getElem?_eq_some_iff.1 hbyte).1
    have hfree : ∀ v, ¬ Destination image image.length a v := by
      rintro v ⟨o, c, hm, -, ⟨rfl, -⟩ | ⟨rfl, -⟩⟩
      · exact hinert.2 (Option.some.inj (hbyte.symm.trans hm.closes))
      · exact hinert.1 (Option.some.inj (hbyte.symm.trans hm.opens))
    have hzero : ∀ i, i / 2 = a → after[i]? = some 0 := by
      rintro i rfl
      rw [h.frame i hfree, Bytes.getElem?_zeros (by omega)]
    exact ⟨by decide, hzero _ (by omega), hzero _ (by omega)⟩

end IsTable

/-! ## Images with a table -/

section Table

variable {image table : Bytes}

/-- The scan that makes the table of an image. -/
def tableScan (image : Bytes) : Outcome Bytes Unit :=
  resolve (.ofBytes image) .bytes .silent (.zeros (2 * image.size)) ()

theorem branchTable_eq (image : Bytes) :
    branchTable image = (tableScan image).result.map fun _ => (tableScan image).table := rfl

/-- How the scan ends that makes the table of an image. -/
theorem ending_tableScan (himage : 2 * image.size < UInt64.size) :
    Ending image.toList (.zeros (2 * image.size)) (tableScan image).table (tableScan image).puts
      (tableScan image).result := by
  have hroom : HasRoom image (.zeros (2 * image.size)) := by
    constructor <;> simp [Bytes.zeros, himage]
  exact ending_of_quiet Writable.honest_bytes hroom (Monitor.quiet_silent _)

/-- An image with a table is half as large as memory at most. -/
theorem size_lt_of_branchTable (himage : image.size < UInt64.size)
    (h : branchTable image = .ok table) : 2 * image.size < UInt64.size := by
  refine Nat.lt_of_not_le fun hlarge => ?_
  have hsmall : Writable.bytes.size (.zeros (2 * image.size)) / Word.size <
      (Readable.ofBytes image).size := by
    show UInt64.ofNat (Bytes.zeros (2 * image.size)).size / Word.size < UInt64.ofNat image.size
    rw [UInt64.lt_iff_toNat_lt, UInt64.toNat_div, UInt64.toNat_ofNat', Bytes.size_zeros,
      UInt64.toNat_ofNat_of_lt' himage]
    show 2 * image.size % 2 ^ 64 / 2 < image.size
    have hsize : UInt64.size = 2 ^ 64 := rfl
    omega
  rw [branchTable_eq, tableScan, resolve, if_pos hsmall] at h
  cases h

/-- The scan that makes the table of an image succeeds exactly if the image is balanced and its
loops end before the last destination. -/
theorem tableScan_ok_iff (himage : 2 * image.size < UInt64.size) :
    (∃ statistics, (tableScan image).result = .ok statistics) ↔
      Balanced image.toList ∧ ∀ c, image[c]? = some closeByte → c < 65535 := by
  simpa only [Array.getElem?_toList] using (ending_tableScan himage).ok_iff

/-- If it succeeds, it makes the table of the image. -/
theorem isTable_of_tableScan (himage : 2 * image.size < UInt64.size) {statistics : Statistics}
    (hok : (tableScan image).result = .ok statistics) :
    branchTable image = .ok (tableScan image).table ∧
      IsTable image.toList 0 (tableScan image).table := by
  have hending := ending_tableScan himage
  rw [hok] at hending
  obtain ⟨closed, hreached⟩ := hending.exists_reached
  refine ⟨by rw [branchTable_eq, hok]; rfl, .of_rewritten ?_⟩
  rw [Array.length_toList] at hreached ⊢
  exact hreached.rewritten

/-- A balanced image whose loops end early enough has a table. -/
theorem exists_branchTable (himage : 2 * image.size < UInt64.size)
    (hbalanced : Balanced image.toList) (hnear : ∀ c, image[c]? = some closeByte → c < 65535) :
    ∃ table, branchTable image = .ok table ∧ IsTable image.toList 0 table := by
  obtain ⟨statistics, hok⟩ := (tableScan_ok_iff himage).2 ⟨hbalanced, hnear⟩
  exact ⟨_, isTable_of_tableScan himage hok⟩

/-- An image has a table exactly if it is balanced and its loops end before the last destination,
and then the table consists of the words of its instructions. -/
theorem branchTable_eq_ok_iff (himage : 2 * image.size < UInt64.size) :
    branchTable image = .ok table ↔
      Balanced image.toList ∧ (∀ c, image[c]? = some closeByte → c < 65535) ∧
        IsTable image.toList 0 table := by
  constructor
  · intro h
    cases hresult : (tableScan image).result with
    | error cause =>
      rw [branchTable_eq, hresult] at h
      cases h
    | ok statistics =>
      obtain ⟨hbalanced, hnear⟩ := (tableScan_ok_iff himage).1 ⟨statistics, hresult⟩
      obtain ⟨htable, hwords⟩ := isTable_of_tableScan himage hresult
      obtain rfl := Except.ok.inj (htable.symm.trans h)
      exact ⟨hbalanced, hnear, hwords⟩
  · rintro ⟨hbalanced, hnear, hwords⟩
    obtain ⟨table', htable, hwords'⟩ := exists_branchTable himage hbalanced hnear
    rw [htable, hwords'.unique hbalanced hwords]

theorem exists_branchTable_iff (himage : 2 * image.size < UInt64.size) :
    (∃ table, branchTable image = .ok table) ↔
      Balanced image.toList ∧ ∀ c, image[c]? = some closeByte → c < 65535 := by
  constructor
  · rintro ⟨table, h⟩
    obtain ⟨hbalanced, hnear, -⟩ := (branchTable_eq_ok_iff himage).1 h
    exact ⟨hbalanced, hnear⟩
  · rintro ⟨hbalanced, hnear⟩
    obtain ⟨table, h, -⟩ := exists_branchTable himage hbalanced hnear
    exact ⟨table, h⟩

theorem size_of_branchTable (himage : image.size < UInt64.size)
    (h : branchTable image = .ok table) : table.size = 2 * image.size := by
  rw [← Array.length_toList]
  exact ((branchTable_eq_ok_iff (size_lt_of_branchTable himage h)).1 h).2.2.size_eq

end Table

end LoopTable
