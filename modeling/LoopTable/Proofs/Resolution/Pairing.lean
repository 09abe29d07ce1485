import LoopTable.Proofs.Nesting.Pairing
import LoopTable.Proofs.Resolution.Exact

/-!
# The table as a pairing

The words that a successful scan leaves in its table pair the loop instructions of the image without
crossings, and there is no other way to do so (`resolve_pairs_uniquely`): a table in which starts
and ends point at each other and no two pairs cross has the same word at every loop instruction.
-/

namespace LoopTable

/-- The words of a table, by address. -/
def Bytes.words (table : Bytes) (address : Nat) : Option Nat :=
  (Word.decode? table (.ofNat address)).map UInt16.toNat

theorem Bytes.HoldsWord.words_eq {table : Bytes} {address value : Nat}
    (h : table.HoldsWord address value) (ha : address < UInt64.size) :
    table.words address = some value := by
  rw [words, h.decode?_eq ha, Option.map_some, UInt16.toNat_ofNat', Nat.mod_eq_of_lt h.lt]

section Memory

variable {σ μ : Type} {image : Bytes} {w : Writable σ} {view : σ → Bytes} {m : Monitor μ}
  {table : σ} {monitor : μ} {statistics : Statistics}

/-- A scan succeeds only in a table with room for the image. -/
theorem HasRoom.of_ok (hw : w.Honest view) (himage : image.size < UInt64.size)
    (htable : (view table).size < UInt64.size)
    (hok : (resolve (.ofBytes image) w m table monitor).result = .ok statistics) :
    HasRoom image (view table) := by
  refine ⟨Nat.le_of_not_lt fun hlt => ?_, htable⟩
  rw [hw.resolve_eq_of_lt himage htable hlt] at hok
  cases hok

/-- The words of every loop, as they are read back from a table that is rewritten for them. -/
theorem Reached.words_eq {before after : Bytes} {opened : List Nat} {closed : List (Nat × Nat)}
    (h : Reached image.toList before after image.toList.length opened closed)
    (himage : image.size < UInt64.size) {o c : Nat} (hm : Matched image.toList o c) :
    after.words c = some o ∧ after.words o = some (c + 1) := by
  have hc := hm.closing_lt_length
  have hoc := hm.lt
  have hlength : image.toList.length = image.size := Array.length_toList
  have hend := h.rewritten.holds c o ⟨o, c, hm, hc, Or.inl ⟨rfl, rfl⟩⟩
  have hstart := h.rewritten.holds o (c + 1) ⟨o, c, hm, hc, Or.inr ⟨rfl, rfl⟩⟩
  exact ⟨hend.words_eq (by omega), hstart.words_eq (by omega)⟩

/-- **Unique pairing.** The words that a successful scan leaves pair the loop instructions without
crossings, and any words that do so are the same at every loop instruction. -/
theorem resolve_pairs_uniquely (hw : w.Honest view) (himage : image.size < UInt64.size)
    (htable : (view table).size < UInt64.size)
    (hok : (resolve (.ofBytes image) w m table monitor).result = .ok statistics) :
    let words := (view (resolve (.ofBytes image) w m table monitor).table).words
    NonCrossing image.toList words ∧
      ∀ words', NonCrossing image.toList words' →
        ∀ a, image[a]? = some openByte ∨ image[a]? = some closeByte → words' a = words a := by
  intro words
  have hroom := HasRoom.of_ok hw himage htable hok
  have hending := ending_resolve hw hroom (by rw [hok]; exact fun h => by cases h)
  rw [hok] at hending
  obtain ⟨closed, hreached⟩ := hending.exists_reached
  have hcourse := hreached.course
  rw [List.take_length] at hcourse
  have hcrossing : NonCrossing image.toList words :=
    hcourse.nonCrossing fun o c hm => hreached.words_eq himage hm
  refine ⟨hcrossing, fun words' hwords' a ha => hcrossing.agree hwords' ?_⟩
  rwa [Array.getElem?_toList]

/-- The words of a loop inside a loop. -/
theorem resolve_pairs_nested :
    let outcome := resolve (.ofBytes #[6, 6, 7, 7]) .bytes .silent (.zeros 8) ()
    Writable.bytes.Honest id ∧ (∃ statistics, outcome.result = .ok statistics) ∧
      NonCrossing [6, 6, 7, 7] outcome.table.words := by
  intro outcome
  have hroom : HasRoom #[6, 6, 7, 7] (.zeros 8) := ⟨by decide, by decide⟩
  have hending := ending_of_quiet Writable.honest_bytes hroom (Monitor.quiet_silent _)
  have hbalanced : Balanced [6, 6, 7, 7] := .loop (.loop .nil)
  have hok : ∃ statistics, outcome.result = .ok statistics := by
    refine hending.ok_iff.2 ⟨hbalanced, fun c hclose => ?_⟩
    have hc : c < 4 := (List.getElem?_eq_some_iff.1 hclose).1
    omega
  obtain ⟨statistics, hresult⟩ := hok
  exact ⟨Writable.honest_bytes, ⟨statistics, hresult⟩,
    (resolve_pairs_uniquely Writable.honest_bytes (by decide) (by decide) hresult).1⟩

end Memory

end LoopTable
