import LoopTable.Proofs.Memory.LastWrite

/-!
# Words read back from tables

Words are written into a table through its bytes and decoded from its bytes again. A word that is
written lies inside the table whole or not at all, and the words of two addresses share no byte. So
a table acts as an array of words: the word of an address is the one that was written there last, or
else the one that stood there at first, and there is none where not both of its bytes lie inside.

* `Word.decode?_put_self` and `Word.decode?_put_of_ne` say what one write of a word does to the word
  of its own address and to all others, `Word.decode?_replay_iff` what any sequence of them does.
* `Writable.ActsAsWords` lists what this makes of a region, and `tables_act_as_words` says that
  plain bytes and memory blocks are such, for tables of even and of odd sizes.
* A machine finds the two bytes of a word with numbers of 64 bits. `Word.checkedDecode?` is how it
  does so, which comes to the same (`Word.checkedDecode?_eq`).
-/

namespace LoopTable

namespace Word

/-! ## The word of an address -/

variable {table : Bytes} {a b : UInt64}

/-- Two tables with the same two bytes at an address have the same word there. -/
theorem decode?_congr {table' : Bytes}
    (hlow : table'[2 * a.toNat]? = table[2 * a.toNat]?)
    (hhigh : table'[2 * a.toNat + 1]? = table[2 * a.toNat + 1]?) :
    decode? table' a = decode? table a := by
  unfold decode?
  rw [hlow, hhigh]

/-- There is no word where not both bytes lie inside. -/
theorem decode?_eq_none_iff : decode? table a = none ↔ table.size < 2 * a.toNat + 2 := by
  unfold decode?
  by_cases hin : 2 * a.toNat + 2 ≤ table.size
  · have hlow : 2 * a.toNat < table.size := by omega
    have hhigh : 2 * a.toNat + 1 < table.size := by omega
    simp [hlow, hhigh]
    omega
  · have hhigh : ¬ 2 * a.toNat + 1 < table.size := by omega
    by_cases hlow : 2 * a.toNat < table.size
    · simp [hlow, hhigh]
      omega
    · simp [hlow]
      omega

/-! ## Counting in 64 bits -/

/-- Twice a number in 64 bits. There is none if the product wraps, which shows when it is halved. -/
def checkedDouble? (n : UInt64) : Option UInt64 :=
  let doubled := n * size
  if doubled / size = n then some doubled else none

/-- The word of an address as a machine decodes it: the offset and the end of the word are computed
in 64 bits, and a number that wraps leads nowhere. -/
def checkedDecode? (table : Bytes) (address : UInt64) : Option UInt16 := do
  let offset ← checkedDouble? address
  let last ← checkedEnd? offset size (.ofNat table.size)
  let bytes := table.extract offset.toNat last.toNat
  let low ← bytes[0]?
  let high ← bytes[1]?
  return ofBytes low high

/-- A number is doubled exactly if twice the number fits. -/
theorem checkedDouble?_eq_some_iff {n doubled : UInt64} :
    checkedDouble? n = some doubled ↔ doubled.toNat = 2 * n.toNat := by
  have hn := n.toNat_lt_size
  have hdoubled := doubled.toNat_lt_size
  have hproduct : (n * size).toNat = n.toNat * 2 % UInt64.size := UInt64.toNat_mul ..
  have hhalf : (n * size / size).toNat = n.toNat * 2 % UInt64.size / 2 := by
    rw [UInt64.toNat_div, hproduct]
    rfl
  -- A product that wraps has lost the highest bit of the number.
  have hwraps : n * size / size = n ↔ 2 * n.toNat < UInt64.size := by
    rw [← UInt64.toNat_inj, hhalf]
    by_cases hfits : 2 * n.toNat < UInt64.size
    · rw [Nat.mod_eq_of_lt (by omega)]
      omega
    · rw [Nat.mod_eq_sub_mod (by omega), Nat.mod_eq_of_lt (by omega)]
      omega
  unfold checkedDouble?
  by_cases hfits : 2 * n.toNat < UInt64.size
  · rw [if_pos (hwraps.2 hfits), Option.some_inj, ← UInt64.toNat_inj, hproduct,
      Nat.mod_eq_of_lt (by omega)]
    omega
  · rw [if_neg fun hhalves => hfits (hwraps.1 hhalves)]
    simp only [reduceCtorEq, false_iff]
    omega

/-- Counting in 64 bits finds the same words, whatever the address. -/
theorem checkedDecode?_eq (hsize : table.size < UInt64.size) (address : UInt64) :
    checkedDecode? table address = decode? table address := by
  have htable : (UInt64.ofNat table.size).toNat = table.size := UInt64.toNat_ofNat_of_lt' hsize
  by_cases hin : 2 * address.toNat + 2 ≤ table.size
  · obtain ⟨offset, hoffset⟩ : ∃ offset : UInt64, offset.toNat = 2 * address.toNat :=
      ⟨.ofNat _, UInt64.toNat_ofNat_of_lt' (by omega)⟩
    obtain ⟨last, hlast⟩ : ∃ last : UInt64, last.toNat = 2 * address.toNat + 2 :=
      ⟨.ofNat _, UInt64.toNat_ofNat_of_lt' (by omega)⟩
    have hdouble : checkedDouble? address = some offset := checkedDouble?_eq_some_iff.2 hoffset
    have hend : checkedEnd? offset size (.ofNat table.size) = some last := by
      rw [checkedEnd?_eq_some_iff, htable, hlast, hoffset]
      exact ⟨rfl, hin⟩
    have hlow : (table.extract offset.toNat last.toNat)[0]? = table[2 * address.toNat]? := by
      rw [hoffset, Array.getElem?_extract, if_pos (by omega), Nat.add_zero]
    have hhigh : (table.extract offset.toNat last.toNat)[1]? = table[2 * address.toNat + 1]? := by
      rw [hoffset, Array.getElem?_extract, if_pos (by omega)]
    simp only [checkedDecode?, decode?, hdouble, hend, Option.bind_eq_bind, Option.bind_some,
      hlow, hhigh]
  · rw [decode?_eq_none_iff.2 (Nat.lt_of_not_le hin)]
    cases hdouble : checkedDouble? address with
    | none => simp [checkedDecode?, hdouble]
    | some offset =>
      cases hend : checkedEnd? offset size (.ofNat table.size) with
      | none => simp [checkedDecode?, hdouble, hend]
      | some last =>
        have hfits := (checkedEnd?_eq_some_iff.1 hend).2
        rw [htable, checkedDouble?_eq_some_iff.1 hdouble] at hfits
        exact absurd hfits hin

/-! ## Writing a word -/

/-- The write that puts a word at an address. -/
def write (address : UInt64) (w : UInt16) : UInt64 × List UInt8 :=
  (address * size, encode w)

/-- A word at an address, that lies inside so many bytes. -/
def Lands (bytes : Nat) (address : UInt64) (word : UInt64 × UInt16) : Prop :=
  word.1 = address ∧ 2 * address.toNat + 2 ≤ bytes

instance (bytes : Nat) (address : UInt64) (word : UInt64 × UInt16) :
    Decidable (Lands bytes address word) :=
  inferInstanceAs (Decidable (_ ∧ _ ≤ _))

variable {d : UInt16}

/-- The offset of a word does not wrap if its address has 63 bits. -/
theorem toNat_offset_write (ha : a.toNat < UInt64.size / 2) : (write a d).1.toNat = 2 * a.toNat := by
  have hoffset := toNat_offset (a := a.toNat) (show 2 * a.toNat < UInt64.size by omega)
  rwa [UInt64.ofNat_toNat] at hoffset

theorem fits_write_iff (ha : a.toNat < UInt64.size / 2) {bytes : Nat} :
    Fits bytes (write a d) ↔ 2 * a.toNat + 2 ≤ bytes := by
  unfold Fits
  rw [toNat_offset_write ha]
  rfl

/-- A word is written to the two bytes of its address. -/
theorem covers_write_iff (ha : a.toNat < UInt64.size / 2) {i : Nat} :
    Covers (write a d) i ↔ i / 2 = a.toNat := by
  unfold Covers
  rw [toNat_offset_write ha]
  show 2 * a.toNat ≤ i ∧ i < 2 * a.toNat + 2 ↔ _
  omega

/-- A word that lies inside is decoded as it was written. -/
theorem decode?_put_self (ha : a.toNat < UInt64.size / 2) (hin : 2 * a.toNat + 2 ≤ table.size) :
    decode? (table.put (write a d).1 (write a d).2).2 a = some d := by
  have hfits : Fits table.size (write a d) := (fits_write_iff ha).2 hin
  have hoffset := toNat_offset_write (d := d) ha
  have hlow := Bytes.getElem?_put_of_hits (i := 2 * a.toNat)
    ⟨hfits, (covers_write_iff ha).2 (by omega)⟩
  have hhigh := Bytes.getElem?_put_of_hits (i := 2 * a.toNat + 1)
    ⟨hfits, (covers_write_iff ha).2 (by omega)⟩
  rw [hoffset, Nat.sub_self] at hlow
  rw [hoffset, Nat.add_sub_cancel_left] at hhigh
  unfold decode?
  rw [hlow, hhigh]
  exact congrArg some (ofBytes_encode d)

/-- The word of another address stays, whether the write is served or not. -/
theorem decode?_put_of_ne (ha : a.toNat < UInt64.size / 2) (hb : b ≠ a) :
    decode? (table.put (write a d).1 (write a d).2).2 b = decode? table b := by
  have hne : b.toNat ≠ a.toNat := fun heq => hb (UInt64.toNat_inj.1 heq)
  refine decode?_congr (Bytes.getElem?_put_of_not_hits ?_) (Bytes.getElem?_put_of_not_hits ?_)
  · rintro ⟨-, hcovers⟩
    rw [covers_write_iff ha] at hcovers
    omega
  · rintro ⟨-, hcovers⟩
    rw [covers_write_iff ha] at hcovers
    omega

/-- A word that does not lie inside is not written. -/
theorem put_write_of_lt (ha : a.toNat < UInt64.size / 2) (hout : table.size < 2 * a.toNat + 2) :
    (table.put (write a d).1 (write a d).2).2 = table := by
  have hfits : ¬ Fits table.size (write a d) := by
    rw [fits_write_iff ha]
    omega
  rw [Bytes.put_of_lt (Nat.lt_of_not_le hfits)]

/-! ## Any number of words -/

/-- The writes that put some words at their addresses, in order. -/
def writes (words : List (UInt64 × UInt16)) : List (UInt64 × List UInt8) :=
  words.map fun word => write word.1 word.2

/-- After some words were written into a table, the word of an address is that of the last one that
landed there, or the one that stood there at first. -/
def Stands (initial : Bytes) (words : List (UInt64 × UInt16)) (address : UInt64) (w : UInt16) :
    Prop :=
  Recalled (Lands initial.size address) (fun word w => word.2 = w)
    (fun w => decode? initial address = some w) words w

/-- After any words were written, the word of an address is the one that stands there. -/
theorem decode?_replay_iff {initial : Bytes} {words : List (UInt64 × UInt16)} {w : UInt16}
    (hwords : ∀ word ∈ words, word.1.toNat < UInt64.size / 2) :
    decode? (Writable.bytes.replay initial (writes words)) b = some w ↔
      Stands initial words b w := by
  unfold Stands
  induction words using List.reverseRecOn with
  | nil =>
    rw [recalled_nil_iff]
    exact Iff.rfl
  | append_singleton words word ih =>
    obtain ⟨a, d⟩ := word
    have ha : a.toNat < UInt64.size / 2 := hwords (a, d) (by simp)
    have hearlier := ih fun word hword => hwords word (List.mem_append_left _ hword)
    have hsize := Bytes.size_replay initial (writes words)
    have hsnoc : writes (words ++ [(a, d)]) = writes words ++ [write a d] := by
      simp [writes]
    rw [hsnoc, Writable.replay_snoc]
    change decode? (Bytes.put _ (write a d).1 (write a d).2).2 b = some w ↔ _
    by_cases hlands : Lands initial.size b (a, d)
    · obtain ⟨rfl, hin⟩ := id hlands
      rw [recalled_snoc_of_pos hlands, decode?_put_self ha (hsize.symm ▸ hin), Option.some_inj]
    · rw [recalled_snoc_of_neg hlands, ← hearlier]
      by_cases hb : b = a
      · subst hb
        have hout : initial.size < 2 * b.toNat + 2 := Nat.lt_of_not_le fun hin => hlands ⟨rfl, hin⟩
        rw [put_write_of_lt ha (hsize.symm ▸ hout)]
      · rw [decode?_put_of_ne ha hb]

end Word

/-! ## Regions -/

/-- After some words were written, a region answers as an array of words does, which has one word
for each two bytes. -/
structure Writable.ActsAsWords {σ : Type} (w : Writable σ) (view : σ → Bytes) (initial : σ)
    (words : List (UInt64 × UInt16)) : Prop where
  /-- It accepts exactly the words that lie inside. -/
  accepted_iff : ∀ (a : UInt64) (d : UInt16), a.toNat < UInt64.size / 2 →
    ((w.put (a * Word.size) (Word.encode d) (w.replay initial (Word.writes words))).1 = .ok () ↔
      2 * a.toNat + 2 ≤ (view initial).size)
  /-- There is no word exactly where not both bytes lie inside. -/
  decode?_eq_none_iff : ∀ b : UInt64,
    Word.decode? (view (w.replay initial (Word.writes words))) b = none ↔
      (view initial).size < 2 * b.toNat + 2
  /-- The word of an address is the last one that was accepted there, or the initial one. -/
  decode?_eq_some_iff : ∀ (b : UInt64) (d : UInt16),
    Word.decode? (view (w.replay initial (Word.writes words))) b = some d ↔
      Word.Stands (view initial) words b d
  /-- One word more does not change the word of another address. -/
  frame : ∀ (a b : UInt64) (d : UInt16), a.toNat < UInt64.size / 2 → b ≠ a →
    Word.decode? (view (w.replay initial (Word.writes (words ++ [(a, d)])))) b =
      Word.decode? (view (w.replay initial (Word.writes words))) b
  /-- Counting in 64 bits finds the same words, if the region can be addressed so. -/
  checkedDecode?_eq : (view initial).size < UInt64.size → ∀ b : UInt64,
    Word.checkedDecode? (view (w.replay initial (Word.writes words))) b =
      Word.decode? (view (w.replay initial (Word.writes words))) b

/-- An honest region acts as an array of words. -/
theorem Writable.Honest.actsAsWords {σ : Type} {w : Writable σ} {view : σ → Bytes}
    (hw : w.Honest view) (initial : σ) {words : List (UInt64 × UInt16)}
    (hwords : ∀ word ∈ words, word.1.toNat < UInt64.size / 2) : w.ActsAsWords view initial words := by
  have hview := hw.view_replay initial (Word.writes words)
  have hsize : (view (w.replay initial (Word.writes words))).size = (view initial).size := by
    rw [hview, Bytes.size_replay]
  refine ⟨?_, ?_, ?_, ?_, ?_⟩
  · intro a d ha
    rw [hw.answer_eq_ok_iff, hsize]
    exact Word.fits_write_iff (d := d) ha
  · intro b
    rw [Word.decode?_eq_none_iff, hsize]
  · intro b d
    rw [hview]
    exact Word.decode?_replay_iff hwords
  · intro a b d ha hb
    have hsnoc : Word.writes (words ++ [(a, d)]) = Word.writes words ++ [Word.write a d] := by
      simp [Word.writes]
    rw [hsnoc, Writable.replay_snoc, hw.view_put]
    exact Word.decode?_put_of_ne ha hb
  · intro hsmall b
    exact Word.checkedDecode?_eq (hsize.symm ▸ hsmall) b

/-- **Words.** Plain bytes and memory blocks of any size, even or odd, act as arrays of words under
any sequence of words that are written to addresses of 63 bits. A word is accepted exactly if both
of its bytes lie inside, it is decoded until another one is accepted at its address, and the words
of other addresses never change. An address of 64 bits at which no two bytes lie inside has no word,
and to double it in 64 bits finds none either. -/
theorem tables_act_as_words {words : List (UInt64 × UInt16)}
    (hwords : ∀ word ∈ words, word.1.toNat < UInt64.size / 2) :
    (∀ bytes, Writable.bytes.ActsAsWords id bytes words) ∧
      ∀ block, Writable.block.ActsAsWords Block.bytes block words :=
  ⟨fun bytes => Writable.honest_bytes.actsAsWords bytes hwords,
    fun block => Writable.honest_block.actsAsWords block hwords⟩

/-- A table of five bytes has words at the addresses 0 and 1. One is written twice, one not at all,
and one would need the sixth byte. Twice the last address wraps to 0 in 64 bits. -/
theorem tables_act_as_words_odd :
    let words : List (UInt64 × UInt16) := [(1, 0x1234), (2, 7), (1, 0xABCD)]
    let held := Writable.bytes.replay #[4, 0, 9, 9, 9] (Word.writes words)
    (∀ word ∈ words, word.1.toNat < UInt64.size / 2) ∧ Word.decode? held 0 = some 4 ∧
      Word.decode? held 1 = some 0xABCD ∧ Word.decode? held 2 = none ∧
      Word.checkedDecode? held 9223372036854775808 = none := by
  intro words held
  have hwords : ∀ word ∈ words, word.1.toNat < UInt64.size / 2 := by simp [words, UInt64.size]
  have hfirst : ∀ word ∈ words, ¬ Word.Lands 5 0 word := by simp [words, Word.Lands]
  obtain ⟨hbytes, -⟩ := tables_act_as_words hwords
  have harray := hbytes #[4, 0, 9, 9, 9]
  refine ⟨hwords, (harray.decode?_eq_some_iff 0 4).2 (.untouched hfirst rfl),
    (harray.decode?_eq_some_iff 1 0xABCD).2 ?_, (harray.decode?_eq_none_iff 2).2 (by decide), ?_⟩
  · have hlast : LastWith (Word.Lands 5 1) words [(1, 0x1234), (2, 7)] (1, 0xABCD) [] :=
      ⟨rfl, by decide, List.forall_mem_nil _⟩
    exact .given hlast rfl
  · exact (harray.checkedDecode?_eq (by decide) _).trans
      ((harray.decode?_eq_none_iff _).2 (by decide))

end LoopTable
