import LoopTable.Proofs.Nesting.Source

/-!
# Assembling and disassembling

An instruction is known by its character, by its byte, and by what a scan does when it reads the
byte. All three agree, so a text can be assembled and read back without loss.

* `disassemble_assemble`: what is read back of a text is its instruction characters, without the
  comments.
* `assemble_disassemble_eq_iff`: an image is assembled again from its own text exactly if each of
  its bytes is an instruction.
* `Scan.Opens` and `Scan.Closes` say what it means for a scan to treat a byte as the start or as the
  end of a loop. There is one byte of each kind (`Scan.opens_iff`, `Scan.closes_iff`).
* `assemble_disassemble_inverse` puts them together.
-/

namespace LoopTable

/-! ## Texts and images -/

namespace Instruction

variable {c : Char} {byte : UInt8}

/-- The characters of instructions are those that are no comments. -/
theorem exists_ofChar?_iff : (∃ i, ofChar? c = some i) ↔ c ∈ "><+-.,[]".toList := by
  rw [← not_iff_not, ← ofChar?_eq_none_iff, Option.eq_none_iff_forall_ne_some, not_exists]

theorem ofByte?_eq_openLoop_iff : ofByte? byte = some openLoop ↔ byte = openByte := by
  constructor
  · intro h
    exact (toByte_of_ofByte? h).symm
  · rintro rfl
    rfl

theorem ofByte?_eq_closeLoop_iff : ofByte? byte = some closeLoop ↔ byte = closeByte := by
  constructor
  · intro h
    exact (toByte_of_ofByte? h).symm
  · rintro rfl
    rfl

/-- Only at the two ends of a loop can control leave the straight line. -/
theorem isBranch_iff (i : Instruction) : i.isBranch = true ↔ i = openLoop ∨ i = closeLoop := by
  cases i <;> simp [isBranch]

end Instruction

/-- Every byte of an image made from a text is an instruction. -/
theorem exists_ofByte?_of_mem_assemble {text : List Char} {byte : UInt8}
    (h : byte ∈ assemble text) : ∃ i, Instruction.ofByte? byte = some i := by
  obtain ⟨i, -, rfl⟩ := List.mem_map.1 h
  exact ⟨i, Instruction.ofByte?_toByte i⟩

/-- What is read back of a text is its instruction characters. -/
theorem disassemble_assemble (text : List Char) :
    disassemble (assemble text) = instructionChars text := by
  induction text with
  | nil => rfl
  | cons c text ih =>
    rw [← List.singleton_append, assemble_append, disassemble_append, ih]
    by_cases hc : c ∈ "><+-.,[]".toList
    · obtain ⟨i, hi⟩ := Instruction.exists_ofChar?_iff.2 hc
      have hchar : i.toChar = c := Instruction.toChar_of_ofChar? hi
      have hkept : instructionChars (c :: text) = c :: instructionChars text :=
        List.filter_cons_of_pos (List.contains_iff_mem.2 hc)
      simp [assemble, disassemble, hi, hchar, hkept]
    · have hnone : Instruction.ofChar? c = none := (ofChar?_eq_none_iff c).2 hc
      have hleft : instructionChars (c :: text) = instructionChars text :=
        List.filter_cons_of_neg fun h => hc (List.contains_iff_mem.1 h)
      simp [assemble, disassemble, hnone, hleft]

/-- To assemble the text of an image leaves out the bytes that are no instructions. -/
theorem assemble_disassemble (image : List UInt8) :
    assemble (disassemble image) =
      image.filter fun byte => (Instruction.ofByte? byte).isSome := by
  induction image with
  | nil => rfl
  | cons byte image ih =>
    rw [← List.singleton_append, disassemble_append, assemble_append, ih, List.filter_append]
    cases hbyte : Instruction.ofByte? byte with
    | none => simp [assemble, disassemble, hbyte]
    | some i =>
      have hcode : i.toByte = byte := Instruction.toByte_of_ofByte? hbyte
      simp [assemble, disassemble, hbyte, hcode]

/-- An image is made from its own text exactly if each of its bytes is an instruction. -/
theorem assemble_disassemble_eq_iff (image : List UInt8) :
    assemble (disassemble image) = image ↔
      ∀ byte ∈ image, ∃ i, Instruction.ofByte? byte = some i := by
  simp only [assemble_disassemble, List.filter_eq_self, Option.isSome_iff_exists]

/-- The instructions of an image stand in the order of their characters. -/
theorem getElem?_assemble (text : List Char) (i : Nat) :
    (assemble text)[i]? = (instructionChars text)[i]?.map code := by
  rw [assemble_eq_map_code, List.getElem?_map]

/-! ## What a scan makes of a byte -/

namespace Scan

/-- A scan treats a byte as the start of a loop: over any regions, under any monitor and whatever
was scanned before, a visit that reads the byte puts its address on the stack, and does nothing
else. -/
def Opens (byte : UInt8) : Prop :=
  ∀ {σ μ : Type} (image : Readable) (w : Writable σ) (m : Monitor μ) (address : UInt64)
    (s : Scan σ μ), m.isCancelled s.monitor = false → image.read address = .ok byte →
      (visit image w m address).run s = .ok () ((s.asked m address).opened address)

/-- A scan treats a byte as the end of a loop: a visit that reads the byte closes the innermost open
loop, or fails for want of one. -/
def Closes (byte : UInt8) : Prop :=
  ∀ {σ μ : Type} (image : Readable) (w : Writable σ) (m : Monitor μ) (address : UInt64)
    (s : Scan σ μ), m.isCancelled s.monitor = false → image.read address = .ok byte →
      (visit image w m address).run s = (closeLoop w address).run (s.asked m address)

/-- What a visit does once it has read a byte. -/
theorem run_visit_of_read {σ μ : Type} {image : Readable} (w : Writable σ) {m : Monitor μ}
    {address : UInt64} {s : Scan σ μ} {byte : UInt8} (hpoll : m.isCancelled s.monitor = false)
    (hread : image.read address = .ok byte) :
    (visit image w m address).run s =
      (if byte = openByte then openLoop address
        else if byte = closeByte then closeLoop w address
        else pure () : ScanM σ μ Unit).run (s.asked m address) := by
  simp [run_visit, hpoll, hread]

/-- A region that answers with one byte everywhere, visited before any loop is opened. -/
theorem run_visit_first (byte : UInt8) :
    (visit ⟨1, fun _ => .ok byte⟩ .bytes .silent 0).run (initial #[] ()) =
      (if byte = openByte then openLoop 0
        else if byte = closeByte then closeLoop .bytes 0
        else pure () : ScanM Bytes Unit Unit).run ((initial #[] ()).asked .silent 0) :=
  run_visit_of_read .bytes rfl rfl

/-- There is one byte that opens a loop. -/
theorem opens_iff {byte : UInt8} : Opens byte ↔ byte = openByte := by
  constructor
  · intro hopens
    have hvisit := hopens ⟨1, fun _ => .ok byte⟩ .bytes .silent 0 (initial #[] ()) rfl rfl
    rw [run_visit_first] at hvisit
    by_contra hopen
    rw [if_neg hopen] at hvisit
    by_cases hclose : byte = closeByte
    · rw [if_pos hclose, run_closeLoop_of_none .bytes 0 rfl] at hvisit
      cases hvisit
    · rw [if_neg hclose] at hvisit
      cases hvisit
  · rintro rfl σ μ image w m address s hpoll hread
    rw [run_visit_of_read w hpoll hread, if_pos rfl]
    rfl

/-- There is one byte that closes a loop. -/
theorem closes_iff {byte : UInt8} : Closes byte ↔ byte = closeByte := by
  constructor
  · intro hcloses
    have hvisit := hcloses ⟨1, fun _ => .ok byte⟩ .bytes .silent 0 (initial #[] ()) rfl rfl
    -- with no loop open, only the end of a loop fails
    rw [run_visit_first, run_closeLoop_of_none .bytes 0 rfl] at hvisit
    by_contra hclose
    by_cases hopen : byte = openByte
    · rw [if_pos hopen] at hvisit
      cases hvisit
    · rw [if_neg hopen, if_neg hclose] at hvisit
      cases hvisit
  · rintro rfl σ μ image w m address s hpoll hread
    rw [run_visit_of_read w hpoll hread, if_neg openByte_ne_closeByte.symm, if_pos rfl]

end Scan

/-! ## Texts, images and scans -/

/-- **Assembling and disassembling.** What is read back of the image of a text is the text without
its comments, and an image is made again from its own text exactly if it holds nothing but
instructions. Texts one behind the other are assembled one behind the other.

There is one byte for each instruction character. A scan treats it as the start of a loop exactly if
the character is an opening bracket, that is if the byte is that instruction, and as the end of a
loop exactly if it is a closing one. No other instructions are branches. -/
theorem assemble_disassemble_inverse :
    (∀ text : List Char, (∀ byte ∈ assemble text, ∃ i, Instruction.ofByte? byte = some i) ∧
      disassemble (assemble text) = instructionChars text) ∧
    (∀ image : List UInt8, assemble (disassemble image) = image ↔
      ∀ byte ∈ image, ∃ i, Instruction.ofByte? byte = some i) ∧
    (∀ text more : List Char, assemble (text ++ more) = assemble text ++ assemble more) ∧
    (∀ text : List Char, (assemble text).length = (instructionChars text).length) ∧
    (∀ (text : List Char) (i : Nat) (byte : UInt8), (assemble text)[i]? = some byte →
      (Scan.Opens byte ↔ (instructionChars text)[i]? = some '[') ∧
      (Scan.Opens byte ↔ Instruction.ofByte? byte = some .openLoop) ∧
      (Scan.Closes byte ↔ (instructionChars text)[i]? = some ']') ∧
      (Scan.Closes byte ↔ Instruction.ofByte? byte = some .closeLoop)) ∧
    ∀ i : Instruction, i.isBranch = true ↔ i = .openLoop ∨ i = .closeLoop := by
  refine ⟨?_, assemble_disassemble_eq_iff, assemble_append, ?_, ?_, Instruction.isBranch_iff⟩
  · intro text
    exact ⟨fun byte => exists_ofByte?_of_mem_assemble, disassemble_assemble text⟩
  · intro text
    rw [assemble_eq_map_code, List.length_map]
  · intro text i byte hbyte
    rw [getElem?_assemble] at hbyte
    obtain ⟨c, hc, rfl⟩ := Option.map_eq_some_iff.1 hbyte
    rw [Scan.opens_iff, Scan.closes_iff, Instruction.ofByte?_eq_openLoop_iff,
      Instruction.ofByte?_eq_closeLoop_iff, code_eq_openByte_iff, code_eq_closeByte_iff, hc]
    simp

/-- A loop among comments that are not of one byte each. -/
theorem assemble_disassemble_inverse_loop :
    let text := "λ[é-] fin".toList
    assemble text = [6, 3, 7] ∧ disassemble [6, 3, 7] = ['[', '-', ']'] ∧
      Scan.Opens 6 ∧ ¬ Scan.Opens 3 ∧ ¬ Scan.Closes 3 ∧ Scan.Closes 7 := by
  intro text
  obtain ⟨hread, -, -, -, hscan, -⟩ := assemble_disassemble_inverse
  have himage : assemble text = [6, 3, 7] := by decide
  have hchars : instructionChars text = ['[', '-', ']'] := by decide
  have hback := (hread text).2
  have hfirst := hscan text 0 6 (by rw [himage]; rfl)
  have hsecond := hscan text 1 3 (by rw [himage]; rfl)
  have hthird := hscan text 2 7 (by rw [himage]; rfl)
  rw [hchars] at hback hfirst hsecond hthird
  rw [himage] at hback
  exact ⟨himage, hback, hfirst.1.2 rfl, fun h => absurd (hsecond.1.1 h) (by decide),
    fun h => absurd (hsecond.2.2.1.1 h) (by decide), hthird.2.2.1.2 rfl⟩

end LoopTable
