import LoopTable.Proofs.Resolution.BranchTable

/-!
# Brackets of a source text

Nesting of loops, said of the source text and without any byte: `Nested` texts, the pairs of
brackets in them (`BracketPair`), and where the instructions of a text lead to (`Leads`).

An image is the codes of the instruction characters, one by one (`assemble_eq_map_code`), and only
brackets have the codes of brackets. So the notions for texts and for images are the same
(`balanced_map_code_iff`, `matched_map_code_iff`, `leads_iff_slot`).
-/

namespace LoopTable

/-! ## Texts -/

/-- The characters of a text that are instructions, in order. -/
def instructionChars (text : List Char) : List Char :=
  text.filter fun c => "><+-.,[]".toList.contains c

/-- Texts in which every bracket has its partner, one pair inside or behind another. -/
inductive Nested : List Char → Prop
  | nil : Nested []
  | other {c : Char} : c ≠ '[' → c ≠ ']' → Nested [c]
  | loop {body : List Char} : Nested body → Nested ('[' :: body ++ [']'])
  | append {first second : List Char} : Nested first → Nested second → Nested (first ++ second)

/-- The two brackets of one pair. -/
structure BracketPair (text : List Char) (opening closing : Nat) : Prop where
  /-- The opening bracket comes first. -/
  lt : opening < closing
  /-- It stands at the first position. -/
  opens : text[opening]? = some '['
  /-- The closing bracket stands at the second. -/
  closes : text[closing]? = some ']'
  /-- What is between them is nested. -/
  nested : Nested ((text.take closing).drop (opening + 1))

/-- Where the instruction at a position leads to: behind the partner of an opening bracket, to that
of a closing one, and nowhere otherwise. -/
inductive Leads (text : List Char) : Nat → Nat → Prop
  | start {opening closing : Nat} : BracketPair text opening closing →
      Leads text opening (closing + 1)
  | stop {opening closing : Nat} : BracketPair text opening closing → Leads text closing opening
  | plain {a : Nat} {c : Char} : text[a]? = some c → c ≠ '[' → c ≠ ']' → Leads text a 0

/-! ## Codes -/

/-- The byte of an instruction character; comments share one that is inert. -/
def code (c : Char) : UInt8 :=
  ((Instruction.ofChar? c).map Instruction.toByte).getD 8

theorem ofChar?_eq_none_iff (c : Char) :
    Instruction.ofChar? c = none ↔ c ∉ "><+-.,[]".toList := by
  unfold Instruction.ofChar?
  split <;> simp_all

theorem code_eq_openByte_iff (c : Char) : code c = openByte ↔ c = '[' := by
  unfold code Instruction.ofChar?
  split <;> simp_all [Instruction.toByte, openByte, closeByte]

theorem code_eq_closeByte_iff (c : Char) : code c = closeByte ↔ c = ']' := by
  unfold code Instruction.ofChar?
  split <;> simp_all [Instruction.toByte, openByte, closeByte]

theorem isInert_code_iff (c : Char) : IsInert (code c) ↔ c ≠ '[' ∧ c ≠ ']' := by
  rw [IsInert, ne_eq, ne_eq, code_eq_openByte_iff, code_eq_closeByte_iff]

/-- An image has the code of each instruction character. -/
theorem assemble_eq_map_code (text : List Char) :
    assemble text = (instructionChars text).map code := by
  induction text with
  | nil => rfl
  | cons c text ih =>
    cases hc : Instruction.ofChar? c with
    | none =>
      have hnot : ¬ "><+-.,[]".toList.contains c = true := by
        rw [List.contains_iff_mem]
        exact (ofChar?_eq_none_iff c).1 hc
      rw [assemble, List.filterMap_cons_none hc, instructionChars, List.filter_cons_of_neg hnot]
      exact ih
    | some i =>
      have hmem : "><+-.,[]".toList.contains c = true := by
        rw [List.contains_iff_mem]
        by_contra hnot
        rw [(ofChar?_eq_none_iff c).2 hnot] at hc
        cases hc
      have hcode : code c = i.toByte := by rw [code, hc]; rfl
      rw [assemble, List.filterMap_cons_some hc, instructionChars, List.filter_cons_of_pos hmem,
        List.map_cons, List.map_cons, hcode]
      exact congrArg _ ih

/-! ## Nesting of texts and of images -/

theorem Nested.balanced {text : List Char} (h : Nested text) : Balanced (text.map code) := by
  induction h with
  | nil => exact .nil
  | other hopen hclose => exact .inert ((isInert_code_iff _).2 ⟨hopen, hclose⟩)
  | loop _ ih =>
    rw [List.map_append, List.map_cons]
    exact .loop ih
  | append _ _ ih₁ ih₂ =>
    rw [List.map_append]
    exact .append ih₁ ih₂

theorem Balanced.nested {image : List UInt8} (h : Balanced image) {text : List Char}
    (htext : text.map code = image) : Nested text := by
  induction h generalizing text with
  | nil =>
    rw [List.map_eq_nil_iff] at htext
    exact htext ▸ .nil
  | inert hinert =>
    obtain ⟨c, rfl, rfl⟩ := List.map_eq_singleton_iff.1 htext
    exact .other ((isInert_code_iff c).1 hinert).1 ((isInert_code_iff c).1 hinert).2
  | loop _ ih =>
    obtain ⟨start, stop, rfl, hstart, hstop⟩ := List.map_eq_append_iff.1 htext
    obtain ⟨c, body, rfl, hopen, hbody⟩ := List.map_eq_cons_iff.1 hstart
    obtain ⟨d, rfl, hclose⟩ := List.map_eq_singleton_iff.1 hstop
    rw [(code_eq_openByte_iff c).1 hopen, (code_eq_closeByte_iff d).1 hclose]
    exact .loop (ih hbody)
  | append _ _ ih₁ ih₂ =>
    obtain ⟨first, second, rfl, hfirst, hsecond⟩ := List.map_eq_append_iff.1 htext
    exact .append (ih₁ hfirst) (ih₂ hsecond)

theorem balanced_map_code_iff (text : List Char) : Balanced (text.map code) ↔ Nested text :=
  ⟨fun h => h.nested rfl, fun h => h.balanced⟩

theorem getElem?_map_code_eq_open_iff (text : List Char) (a : Nat) :
    (text.map code)[a]? = some openByte ↔ text[a]? = some '[' := by
  rw [List.getElem?_map]
  cases text[a]? <;> simp [code_eq_openByte_iff]

theorem getElem?_map_code_eq_close_iff (text : List Char) (a : Nat) :
    (text.map code)[a]? = some closeByte ↔ text[a]? = some ']' := by
  rw [List.getElem?_map]
  cases text[a]? <;> simp [code_eq_closeByte_iff]

theorem matched_map_code_iff (text : List Char) (o c : Nat) :
    Matched (text.map code) o c ↔ BracketPair text o c := by
  have hbetween : between (text.map code) o c = ((text.take c).drop (o + 1)).map code := by
    rw [between, List.map_drop, List.map_take]
  constructor
  · rintro ⟨hlt, hopens, hcloses, hbalanced⟩
    rw [hbetween, balanced_map_code_iff] at hbalanced
    exact ⟨hlt, (getElem?_map_code_eq_open_iff text o).1 hopens,
      (getElem?_map_code_eq_close_iff text c).1 hcloses, hbalanced⟩
  · rintro ⟨hlt, hopens, hcloses, hnested⟩
    rw [← balanced_map_code_iff, ← hbetween] at hnested
    exact ⟨hlt, (getElem?_map_code_eq_open_iff text o).2 hopens,
      (getElem?_map_code_eq_close_iff text c).2 hcloses, hnested⟩

/-- The word of an instruction of an image tells where the character leads to. -/
theorem leads_iff_slot (text : List Char) (a v : Nat) :
    Leads text a v ↔ Slot (text.map code) 0 a v := by
  constructor
  · rintro (hpair | hpair | ⟨hc, hopen, hclose⟩)
    · have hslot := @Slot.start _ 0 _ _ ((matched_map_code_iff text _ _).2 hpair)
      rwa [Nat.zero_add] at hslot
    · have hslot := @Slot.stop _ 0 _ _ ((matched_map_code_iff text _ _).2 hpair)
      rwa [Nat.zero_add] at hslot
    · refine .inert ?_ ((isInert_code_iff _).2 ⟨hopen, hclose⟩)
      rw [List.getElem?_map, hc]
      rfl
  · intro h
    generalize himage : text.map code = image at h
    cases h with
    | start hm =>
      rw [← himage, matched_map_code_iff] at hm
      rw [Nat.zero_add]
      exact .start hm
    | stop hm =>
      rw [← himage, matched_map_code_iff] at hm
      rw [Nat.zero_add]
      exact .stop hm
    | inert hbyte hinert =>
      rw [← himage, List.getElem?_map, Option.map_eq_some_iff] at hbyte
      obtain ⟨c, hc, rfl⟩ := hbyte
      rw [isInert_code_iff] at hinert
      exact .plain hc hinert.1 hinert.2

end LoopTable
