import LoopTable.Proofs.History
import LoopTable.Proofs.Memory.Selection

/-!
# What is read back after writes

Plain bytes and memory blocks are arrays. A write that lies inside is stored whole, and any other
one is refused and changes nothing. So which byte stands at a position after some writes can be
told from the writes alone, without carrying them out: `Remembered` says that it is the one given by
the last write accepted there, or else the byte that stood there at first.

* `Bytes.getElem?_put_of_hits` and `Bytes.getElem?_put_of_not_hits` say so of one write,
  `Bytes.getElem?_replay_iff` of any sequence of writes.
* `Writable.ActsAsArray` lists what this makes of a region, and `regions_act_as_arrays` says that
  plain bytes and memory blocks are such.
* Offsets have 64 bits, and a machine adds them up in 64 bits. `checkedEnd?` is the range check as
  a machine makes it, which comes to the same (`checkedEnd?_eq_some_iff`).
-/

namespace LoopTable

/-! ## Ranges -/

/-- A write lies inside so many bytes. -/
def Fits (size : Nat) (put : UInt64 × List UInt8) : Prop :=
  put.1.toNat + put.2.length ≤ size

/-- A write lies inside so many bytes, and sends one to a position. -/
def Hits (size i : Nat) (put : UInt64 × List UInt8) : Prop :=
  Fits size put ∧ Covers put i

instance (size : Nat) (put : UInt64 × List UInt8) : Decidable (Fits size put) :=
  inferInstanceAs (Decidable (_ ≤ _))

instance (size i : Nat) (put : UInt64 × List UInt8) : Decidable (Hits size i put) :=
  inferInstanceAs (Decidable (_ ∧ _ ≤ _ ∧ _ < _))

/-- The end of `length` bytes from `offset` on, added up in 64 bits. There is none if the sum wraps
or lies behind `size`. -/
def checkedEnd? (offset length size : UInt64) : Option UInt64 :=
  let last := offset + length
  if last < offset ∨ size < last then none else some last

/-- The check in 64 bits finds an end exactly where the unbounded sum is not behind the size. -/
theorem checkedEnd?_eq_some_iff {offset length size last : UInt64} :
    checkedEnd? offset length size = some last ↔
      last.toNat = offset.toNat + length.toNat ∧ offset.toNat + length.toNat ≤ size.toNat := by
  have hoffset := offset.toNat_lt_size
  have hlength := length.toNat_lt_size
  have hsize := size.toNat_lt_size
  have hsum : (offset + length).toNat = (offset.toNat + length.toNat) % UInt64.size :=
    UInt64.toNat_add ..
  -- A sum that wraps is less than each of its terms.
  have hwraps : offset + length < offset ↔ UInt64.size ≤ offset.toNat + length.toNat := by
    rw [UInt64.lt_iff_toNat_lt, hsum]
    rcases Nat.lt_or_ge (offset.toNat + length.toNat) UInt64.size with hlt | hge
    · rw [Nat.mod_eq_of_lt hlt]
      omega
    · rw [Nat.mod_eq_sub_mod hge, Nat.mod_eq_of_lt (by omega)]
      omega
  rw [checkedEnd?]
  by_cases hnone : offset + length < offset ∨ size < offset + length
  · simp only [hnone, if_true, reduceCtorEq, false_iff, not_and]
    intro hlast hfits
    rcases hnone with hnone | hnone
    · rw [hwraps] at hnone
      omega
    · rw [UInt64.lt_iff_toNat_lt, hsum, Nat.mod_eq_of_lt (by omega)] at hnone
      omega
  · simp only [hnone, if_false, Option.some.injEq]
    rw [not_or, hwraps, UInt64.lt_iff_toNat_lt, hsum] at hnone
    rw [Nat.mod_eq_of_lt (Nat.lt_of_not_le hnone.1)] at hnone hsum
    rw [← UInt64.toNat_inj, hsum]
    omega

/-! ## The byte at a position -/

/-- After some writes to `initial`, served where they lie inside, `byte` stands at position `i`. -/
inductive Remembered (initial : Bytes) (puts : List (UInt64 × List UInt8)) (i : Nat)
    (byte : UInt8) : Prop
  /-- The last write served at the position gave the byte. -/
  | given {before after : List (UInt64 × List UInt8)} {put : UInt64 × List UInt8} :
      LastWith (Hits initial.size i) puts before put after →
      put.2[i - put.1.toNat]? = some byte → Remembered initial puts i byte
  /-- No write was served at the position, and the byte stood there at first. -/
  | untouched : (∀ put ∈ puts, ¬ Hits initial.size i put) → initial[i]? = some byte →
      Remembered initial puts i byte

section Remembered

variable {initial bytes : Bytes} {puts : List (UInt64 × List UInt8)} {put : UInt64 × List UInt8}
  {i : Nat} {byte : UInt8}

/-- The last write served at a position is what is recalled of it. -/
theorem remembered_iff_recalled : Remembered initial puts i byte ↔
    Recalled (Hits initial.size i) (fun put byte => put.2[i - put.1.toNat]? = some byte)
      (fun byte => initial[i]? = some byte) puts byte := by
  constructor
  · rintro (⟨hlast, hbyte⟩ | ⟨hnone, hbyte⟩)
    · exact .given hlast hbyte
    · exact .untouched hnone hbyte
  · rintro (⟨hlast, hbyte⟩ | ⟨hnone, hbyte⟩)
    · exact .given hlast hbyte
    · exact .untouched hnone hbyte

theorem remembered_nil_iff : Remembered initial [] i byte ↔ initial[i]? = some byte :=
  remembered_iff_recalled.trans recalled_nil_iff

/-- Of a write served at a position, the byte for it is remembered. -/
theorem remembered_snoc_of_hits (hhits : Hits initial.size i put) :
    Remembered initial (puts ++ [put]) i byte ↔ put.2[i - put.1.toNat]? = some byte :=
  remembered_iff_recalled.trans (recalled_snoc_of_pos hhits)

/-- Any other write leaves what is remembered of a position. -/
theorem remembered_snoc_of_not_hits (hspares : ¬ Hits initial.size i put) :
    Remembered initial (puts ++ [put]) i byte ↔ Remembered initial puts i byte := by
  rw [remembered_iff_recalled, remembered_iff_recalled]
  exact recalled_snoc_of_neg hspares

namespace Bytes

/-- Where a write is served, its byte stands. -/
theorem getElem?_put_of_hits (h : Hits bytes.size i put) :
    (bytes.put put.1 put.2).2[i]? = put.2[i - put.1.toNat]? := by
  rw [put_of_le h.1, getElem?_overwrite _ _ h.1]
  exact if_pos h.2

/-- Any other write leaves the byte at a position. -/
theorem getElem?_put_of_not_hits (h : ¬ Hits bytes.size i put) :
    (bytes.put put.1 put.2).2[i]? = bytes[i]? := by
  by_cases hfits : Fits bytes.size put
  · rw [put_of_le hfits, getElem?_overwrite _ _ hfits]
    exact if_neg fun hcovers => h ⟨hfits, hcovers⟩
  · rw [put_of_lt (Nat.lt_of_not_le hfits)]

theorem size_replay (initial : Bytes) (puts : List (UInt64 × List UInt8)) :
    (Writable.bytes.replay initial puts).size = initial.size :=
  (Writable.honest_bytes.confined.replay initial puts).size_eq

/-- After any writes, the byte at a position is the one that is remembered. -/
theorem getElem?_replay_iff :
    (Writable.bytes.replay initial puts)[i]? = some byte ↔ Remembered initial puts i byte := by
  induction puts using List.reverseRecOn with
  | nil => exact remembered_nil_iff.symm
  | append_singleton puts put ih =>
    have hsize := size_replay initial puts
    rw [Writable.replay_snoc]
    by_cases hhits : Hits initial.size i put
    · rw [remembered_snoc_of_hits hhits]
      exact Eq.congr_left (getElem?_put_of_hits (hsize ▸ hhits))
    · rw [remembered_snoc_of_not_hits hhits, ← ih]
      exact Eq.congr_left (getElem?_put_of_not_hits (hsize ▸ hhits))

end Bytes

end Remembered

/-! ## Regions -/

/-- After some writes, a region answers as an array of its initial size does. -/
structure Writable.ActsAsArray {σ : Type} (w : Writable σ) (view : σ → Bytes) (initial : σ)
    (puts : List (UInt64 × List UInt8)) : Prop where
  /-- Its size is the same. -/
  size_eq : (view (w.replay initial puts)).size = (view initial).size
  /-- So is the size that it claims. -/
  claim_eq : w.size (w.replay initial puts) = w.size initial
  /-- It accepts exactly the writes that lie inside. -/
  accepted_iff : ∀ put : UInt64 × List UInt8,
    (w.put put.1 put.2 (w.replay initial puts)).1 = .ok () ↔ Fits (view initial).size put
  /-- Any other write is faulty input, and changes nothing at all. -/
  refused : ∀ put : UInt64 × List UInt8, ¬ Fits (view initial).size put →
    ∃ fault : Fault, fault.kind = .invalidInput ∧
      w.put put.1 put.2 (w.replay initial puts) = (.error fault, w.replay initial puts)
  /-- The bytes inside are read. -/
  served_iff : ∀ i : UInt64, (∃ byte, (view (w.replay initial puts)).read i = .ok byte) ↔
    i.toNat < (view initial).size
  /-- What is read is what the last write accepted there gave, or the initial byte. -/
  read_iff : ∀ (i : UInt64) (byte : UInt8),
    (view (w.replay initial puts)).read i = .ok byte ↔ Remembered (view initial) puts i.toNat byte
  /-- To read any other byte is faulty input. -/
  unserved : ∀ i : UInt64, ¬ i.toNat < (view initial).size →
    ∃ fault : Fault, fault.kind = .invalidInput ∧
      (view (w.replay initial puts)).read i = .error fault

namespace Writable

variable {σ : Type} {w : Writable σ} {view : σ → Bytes}

/-- An honest region acts as an array if no write that it refuses changes it. -/
theorem Honest.actsAsArray (hw : w.Honest view)
    (hwhole : ∀ offset data s fault, (w.put offset data s).1 = .error fault →
      (w.put offset data s).2 = s)
    (initial : σ) (puts : List (UInt64 × List UInt8)) : w.ActsAsArray view initial puts := by
  have hview := hw.view_replay initial puts
  have hsize : (view (w.replay initial puts)).size = (view initial).size := by
    rw [hview, Bytes.size_replay]
  refine ⟨hsize, ?_, fun put => ?_, fun put hput => ?_, fun i => ?_, fun i byte => ?_,
    fun i hi => ?_⟩
  · rw [hw.size_eq, hw.size_eq, hsize]
  · rw [hw.answer_eq_ok_iff, hsize]
    exact Iff.rfl
  · have hlt : (view (w.replay initial puts)).size < put.1.toNat + put.2.length := by
      rw [hsize]
      exact Nat.lt_of_not_le hput
    have hanswer : (w.put put.1 put.2 (w.replay initial puts)).1 =
        .error (.outOfRegion put.1 put.2.length (view (w.replay initial puts)).size) := by
      rw [hw.answer_eq, Bytes.put_of_lt hlt]
    exact ⟨_, rfl, Prod.ext hanswer (hwhole _ _ _ _ hanswer)⟩
  · simp only [Bytes.read_eq_ok_iff, ← hsize]
    constructor
    · rintro ⟨byte, hbyte⟩
      exact (Array.getElem?_eq_some_iff.1 hbyte).1
    · exact fun hlt => ⟨_, Array.getElem?_eq_getElem hlt⟩
  · rw [Bytes.read_eq_ok_iff, hview, Bytes.getElem?_replay_iff]
  · have hnone : (view (w.replay initial puts))[i.toNat]? = none :=
      Array.getElem?_eq_none (hsize ▸ Nat.le_of_not_lt hi)
    refine ⟨.outOfRegion i 1 (view (w.replay initial puts)).size, rfl, ?_⟩
    rw [Bytes.read, hnone]

end Writable

/-- **Arrays.** After any writes, at any offsets of 64 bits, plain bytes and memory blocks accept
exactly the writes that lie inside in unbounded numbers. They refuse any other one without a change,
they keep their size, and each of their bytes is the one given by the last write accepted there, or
the initial one. A range check that adds up in 64 bits lets the same writes pass. -/
theorem regions_act_as_arrays (puts : List (UInt64 × List UInt8)) :
    (∀ bytes, Writable.bytes.ActsAsArray id bytes puts) ∧
    (∀ block, Writable.block.ActsAsArray Block.bytes block puts) ∧
    ∀ (put : UInt64 × List UInt8) (size : Nat), put.2.length < UInt64.size → size < UInt64.size →
      ∀ last, checkedEnd? put.1 (.ofNat put.2.length) (.ofNat size) = some last ↔
        Fits size put ∧ last.toNat = put.1.toNat + put.2.length := by
  refine ⟨fun bytes => ?_, fun block => ?_, fun put size hlength hsize last => ?_⟩
  · refine Writable.honest_bytes.actsAsArray (fun offset data held fault hfault => ?_) bytes puts
    exact Writable.honest_bytes.faithful.refused offset data held fault hfault
  · exact Writable.honest_block.actsAsArray
      (fun offset data held _ => held.put_of_error offset data) block puts
  · rw [checkedEnd?_eq_some_iff, UInt64.toNat_ofNat_of_lt' hlength,
      UInt64.toNat_ofNat_of_lt' hsize]
    exact and_comm

/-- Two writes that overlap with one refused between them, then an empty write right behind the end
and one whose end wraps in 64 bits. -/
theorem regions_act_as_arrays_overlapping :
    let puts : List (UInt64 × List UInt8) := [(0, [7, 8, 9]), (2, [5, 5, 5]), (1, [6])]
    let held := Writable.bytes.replay #[1, 2, 3, 4] puts
    held.read 1 = .ok 6 ∧ held.read 2 = .ok 9 ∧ held.read 3 = .ok 4 ∧
      (held.put 4 []).1 = .ok () ∧ (held.put 18446744073709551615 [0]).2 = held ∧
      checkedEnd? 18446744073709551615 1 4 = none := by
  intro puts held
  obtain ⟨hbytes, -, hcheck⟩ := regions_act_as_arrays puts
  have harray := hbytes #[1, 2, 3, 4]
  have hwraps : ¬ Fits 4 (18446744073709551615, [0]) := by decide
  obtain ⟨_, -, hrefused⟩ := harray.refused (18446744073709551615, [0]) hwraps
  have hsame : (held.put 18446744073709551615 [0]).2 = held := by
    have hput : held.put 18446744073709551615 [0] = (.error _, held) := hrefused
    rw [hput]
  refine ⟨(harray.read_iff 1 6).2 ?_, (harray.read_iff 2 9).2 ?_, (harray.read_iff 3 4).2 ?_,
    (harray.accepted_iff (4, [])).2 (by decide), hsame, ?_⟩
  · have hlast : LastWith (Hits 4 1) puts [(0, [7, 8, 9]), (2, [5, 5, 5])] (1, [6]) [] :=
      ⟨rfl, by decide, by decide⟩
    exact .given hlast rfl
  · have hlast : LastWith (Hits 4 2) puts [] (0, [7, 8, 9]) [(2, [5, 5, 5]), (1, [6])] :=
      ⟨rfl, by decide, by decide⟩
    exact .given hlast rfl
  · exact .untouched (by decide) rfl
  · cases hlast : checkedEnd? 18446744073709551615 1 4 with
    | none => rfl
    | some last =>
      have hfits := (hcheck (18446744073709551615, [0]) 4 (by decide) (by decide) last).1 hlast
      exact absurd hfits.1 hwraps

end LoopTable
