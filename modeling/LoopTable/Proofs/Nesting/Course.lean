import Mathlib.Data.List.Induction
import LoopTable.Proofs.Nesting.Depth

/-!
# Open and closed loops, read from left to right

`Course bytes opened closed` says what reading some bytes from left to right finds: the starts of
the loops still open, innermost first, and the loops closed, in the order of their ends. Bytes that
close a loop never opened have no course.

The relation follows the reading byte by byte. What it finds is what `Matched` and `Unclosed` say
without any reading (`Course.mem_closed_iff`, `Course.mem_opened_iff`). The link between the two is
`Layers`: the bytes between neighbouring open loops are balanced, so the next end meets the
innermost of them.
-/

namespace LoopTable

/-! ## First parts of an image -/

theorem getElem?_snoc_eq_some_iff {bytes : List UInt8} {byte b : UInt8} {i : Nat} :
    (bytes ++ [byte])[i]? = some b ↔ bytes[i]? = some b ∨ (i = bytes.length ∧ b = byte) := by
  rcases Nat.lt_trichotomy i bytes.length with hlt | rfl | hgt
  · simp [List.getElem?_append_left hlt, Nat.ne_of_lt hlt]
  · simp [eq_comm]
  · have hwhole : (bytes ++ [byte]).length ≤ i := by
      rw [List.length_append, List.length_singleton]
      exact hgt
    simp [List.getElem?_eq_none hwhole, List.getElem?_eq_none (Nat.le_of_lt hgt), Nat.ne_of_gt hgt]

theorem Matched.closing_lt_length {image : List UInt8} {o c : Nat} (h : Matched image o c) :
    c < image.length :=
  (List.getElem?_eq_some_iff.1 h.closes).1

theorem between_take {image : List UInt8} {o c k : Nat} (h : c ≤ k) :
    between (image.take k) o c = between image o c := by
  rw [between, between, List.take_take, Nat.min_eq_left h]

/-- Whether two addresses are the ends of one loop depends on nothing behind them. -/
theorem matched_take_iff {image : List UInt8} {o c k : Nat} (h : c < k) :
    Matched (image.take k) o c ↔ Matched image o c := by
  constructor
  · rintro ⟨hlt, ho, hc, hb⟩
    rw [List.getElem?_take_of_lt (by omega)] at ho hc
    exact ⟨hlt, ho, hc, between_take (Nat.le_of_lt h) ▸ hb⟩
  · rintro ⟨hlt, ho, hc, hb⟩
    refine ⟨hlt, ?_, ?_, (between_take (Nat.le_of_lt h)).symm ▸ hb⟩
    · rwa [List.getElem?_take_of_lt (by omega)]
    · rwa [List.getElem?_take_of_lt h]

theorem matched_append_iff {bytes rest : List UInt8} {o c : Nat} (h : c < bytes.length) :
    Matched (bytes ++ rest) o c ↔ Matched bytes o c := by
  rw [← matched_take_iff h, List.take_left]

theorem getElem?_append_length_add (before image : List UInt8) (a : Nat) :
    (before ++ image)[before.length + a]? = image[a]? := by
  rw [List.getElem?_append_right (Nat.le_add_right ..), Nat.add_sub_cancel_left]

theorem between_append_right (before image : List UInt8) (o c : Nat) :
    between (before ++ image) (before.length + o) (before.length + c) = between image o c := by
  rw [between, between, List.take_length_add_append, Nat.add_assoc, List.drop_length_add_append]

/-- Whether two addresses are the ends of one loop depends on nothing before them. -/
theorem Matched.append_right {image : List UInt8} {o c : Nat} (h : Matched image o c)
    (before : List UInt8) : Matched (before ++ image) (before.length + o) (before.length + c) where
  lt := Nat.add_lt_add_left h.lt _
  opens := (getElem?_append_length_add before image o).trans h.opens
  closes := (getElem?_append_length_add before image c).trans h.closes
  balanced := (between_append_right before image o c).symm ▸ h.balanced

/-- One byte more adds at most the loop that it closes. -/
theorem matched_snoc_iff {bytes : List UInt8} {byte : UInt8} {o c : Nat} :
    Matched (bytes ++ [byte]) o c ↔
      Matched bytes o c ∨ (c = bytes.length ∧ Matched (bytes ++ [byte]) o bytes.length) := by
  constructor
  · intro h
    have hc := h.closing_lt_length
    rw [List.length_append, List.length_singleton] at hc
    rcases Nat.lt_or_ge c bytes.length with hlt | hge
    · exact Or.inl ((matched_append_iff hlt).1 h)
    · obtain rfl : c = bytes.length := by omega
      exact Or.inr ⟨rfl, h⟩
  · rintro (h | ⟨rfl, h⟩)
    · exact (matched_append_iff h.closing_lt_length).2 h
    · exact h

/-- A byte that closes no loop leaves the matched pairs as they are. -/
theorem matched_snoc_iff_of_ne {bytes : List UInt8} {byte : UInt8} (hb : byte ≠ closeByte)
    {o c : Nat} : Matched (bytes ++ [byte]) o c ↔ Matched bytes o c := by
  rw [matched_snoc_iff]
  constructor
  · rintro (h | ⟨-, h⟩)
    · exact h
    · exact absurd (by simpa using h.closes) hb
  · exact Or.inl

theorem unclosed_take_iff {image : List UInt8} {o k : Nat} :
    Unclosed (image.take k) k o ↔ Unclosed image k o := by
  constructor
  · rintro ⟨hlt, ho, hfree⟩
    rw [List.getElem?_take_of_lt hlt] at ho
    exact ⟨hlt, ho, fun c hc hm => hfree c hc ((matched_take_iff hc).2 hm)⟩
  · rintro ⟨hlt, ho, hfree⟩
    refine ⟨hlt, ?_, fun c hc hm => hfree c hc ((matched_take_iff hc).1 hm)⟩
    rwa [List.getElem?_take_of_lt hlt]

/-- One byte more leaves open what was open, unless it is the end of it, and itself if it opens a
loop. -/
theorem unclosed_snoc_iff {bytes : List UInt8} {byte : UInt8} {o : Nat} :
    Unclosed (bytes ++ [byte]) (bytes.length + 1) o ↔
      (Unclosed bytes bytes.length o ∧ ¬ Matched (bytes ++ [byte]) o bytes.length) ∨
        (o = bytes.length ∧ byte = openByte) := by
  constructor
  · rintro ⟨hlt, ho, hfree⟩
    rcases Nat.lt_or_ge o bytes.length with hlt' | hge
    · rw [List.getElem?_append_left hlt'] at ho
      refine Or.inl ⟨⟨hlt', ho, fun c hc hm => ?_⟩, hfree _ (Nat.lt_succ_self _)⟩
      exact hfree c (Nat.lt_succ_of_lt hc) ((matched_append_iff hc).2 hm)
    · obtain rfl : o = bytes.length := by omega
      exact Or.inr ⟨rfl, by simpa using ho⟩
  · rintro (⟨⟨hlt, ho, hfree⟩, hlast⟩ | ⟨rfl, rfl⟩)
    · refine ⟨Nat.lt_succ_of_lt hlt, by rwa [List.getElem?_append_left hlt], fun c hc hm => ?_⟩
      rcases Nat.lt_succ_iff_lt_or_eq.1 hc with hc' | rfl
      · exact hfree c hc' ((matched_append_iff hc').1 hm)
      · exact hlast hm
    · exact ⟨Nat.lt_succ_self _, by simp, fun c hc hm => by have := hm.lt; omega⟩

/-! ## Layers -/

/-- Some bytes as layers of balanced bytes, each above the start of a loop that stays open. The
starts are listed innermost first. -/
inductive Layers : List UInt8 → List Nat → Prop
  /-- No loop stays open. -/
  | ground {bytes : List UInt8} : Balanced bytes → Layers bytes []
  /-- One loop more is opened, and balanced bytes follow its start. -/
  | above {before inside : List UInt8} {opened : List Nat} :
      Layers before opened → Balanced inside →
        Layers (before ++ openByte :: inside) (before.length :: opened)

namespace Layers

variable {bytes : List UInt8} {opened : List Nat} {o : Nat}

/-- Bytes that leave no loop open are one layer. -/
theorem balanced (h : Layers bytes []) : Balanced bytes := by
  cases h with
  | ground hbytes => exact hbytes

/-- The bytes of the top layer are balanced. -/
theorem balanced_top (h : Layers bytes (o :: opened)) : Balanced (bytes.drop (o + 1)) := by
  cases h with
  | @above before inside _ _ hinside =>
    rw [List.drop_append, List.drop_eq_nil_of_le (Nat.le_succ _), Nat.add_sub_cancel_left]
    exact hinside

theorem lt_length (h : Layers bytes opened) : ∀ o ∈ opened, o < bytes.length := by
  induction h with
  | ground => exact fun o ho => absurd ho List.not_mem_nil
  | above _ _ ih =>
    intro o ho
    rw [List.length_append, List.length_cons]
    rcases List.mem_cons.1 ho with rfl | ho
    · omega
    · have := ih o ho
      omega

theorem append_balanced (h : Layers bytes opened) {more : List UInt8} (hm : Balanced more) :
    Layers (bytes ++ more) opened := by
  cases h with
  | ground hb => exact .ground (hb.append hm)
  | above hbefore hinside =>
    rw [List.append_assoc, List.cons_append]
    exact .above hbefore (hinside.append hm)

/-- The end of a loop takes the top layer down: it joins the one below. -/
theorem close (h : Layers bytes (o :: opened)) : Layers (bytes ++ [closeByte]) opened := by
  cases h with
  | above hbefore hinside =>
    rw [List.append_assoc]
    exact hbefore.append_balanced hinside.loop

/-- The end of a loop meets the start of the top layer. -/
theorem matched_close (h : Layers bytes (o :: opened)) :
    Matched (bytes ++ [closeByte]) o bytes.length := by
  have hinside := h.balanced_top
  cases h with
  | above =>
    refine ⟨by simp, by simp, by simp, ?_⟩
    rw [between, List.take_left]
    exact hinside

end Layers

/-- The bytes around a balanced body are the ends of one loop. -/
theorem Balanced.matched_loop {body : List UInt8} (h : Balanced body) :
    Matched (openByte :: body ++ [closeByte]) 0 (body.length + 1) :=
  (Layers.above (.ground .nil) h).matched_close

/-! ## Courses -/

/-- The starts of the loops left open by some bytes, innermost first, and the two ends of the loops
they close, in the order of the second ends. -/
inductive Course : List UInt8 → List Nat → List (Nat × Nat) → Prop
  /-- Nothing is read. -/
  | nil : Course [] [] []
  /-- A byte outside of loops and their ends changes nothing. -/
  | inert {bytes : List UInt8} {byte : UInt8} {opened : List Nat} {closed : List (Nat × Nat)} :
      Course bytes opened closed → IsInert byte → Course (bytes ++ [byte]) opened closed
  /-- A loop is opened. -/
  | opened {bytes : List UInt8} {opened : List Nat} {closed : List (Nat × Nat)} :
      Course bytes opened closed → Course (bytes ++ [openByte]) (bytes.length :: opened) closed
  /-- The innermost open loop is closed. -/
  | closed {bytes : List UInt8} {o : Nat} {opened : List Nat} {closed : List (Nat × Nat)} :
      Course bytes (o :: opened) closed →
        Course (bytes ++ [closeByte]) opened (closed ++ [(o, bytes.length)])

namespace Course

variable {bytes : List UInt8} {opened : List Nat} {closed : List (Nat × Nat)}

theorem layers (h : Course bytes opened closed) : Layers bytes opened := by
  induction h with
  | nil => exact .ground .nil
  | inert _ hb ih => exact ih.append_balanced (.inert hb)
  | opened _ ih => exact .above ih .nil
  | closed _ ih => exact ih.close

/-- Bytes that leave no loop open are balanced. -/
theorem balanced (h : Course bytes [] closed) : Balanced bytes :=
  h.layers.balanced

/-- Balanced bytes can be read after any others, and leave open what was open. -/
theorem append_balanced (h : Course bytes opened closed) {more : List UInt8}
    (hm : Balanced more) : ∃ closed', Course (bytes ++ more) opened closed' := by
  induction hm generalizing bytes opened closed with
  | nil => exact ⟨closed, (List.append_nil bytes).symm ▸ h⟩
  | inert hb => exact ⟨closed, h.inert hb⟩
  | @loop body _ ih =>
    obtain ⟨closed', hbody⟩ := ih h.opened
    have hbytes : bytes ++ [openByte] ++ body ++ [closeByte] =
        bytes ++ (openByte :: body ++ [closeByte]) := by simp
    exact ⟨_, hbytes ▸ hbody.closed⟩
  | append _ _ ihfirst ihsecond =>
    obtain ⟨closed', hfirst⟩ := ihfirst h
    rw [← List.append_assoc]
    exact ihsecond hfirst

/-- The depth behind the bytes is the number of loops left open. -/
theorem surplus_eq (h : Course bytes opened closed) : surplus bytes = opened.length := by
  induction h with
  | nil => rfl
  | inert _ hb ih => rw [surplus_append, surplus_inert hb, ih, Int.add_zero]
  | opened _ ih =>
    rw [surplus_append, surplus_open, ih, List.length_cons]
    rfl
  | closed _ ih =>
    rw [surplus_append, surplus_close, ih, List.length_cons]
    omega

/-- The loops closed are those with both ends among the bytes. -/
theorem mem_closed_iff (h : Course bytes opened closed) {o c : Nat} :
    (o, c) ∈ closed ↔ Matched bytes o c := by
  induction h generalizing o c with
  | nil => exact ⟨fun hm => by simp at hm, fun hm => by simpa using hm.closes⟩
  | inert _ hb ih => rw [matched_snoc_iff_of_ne hb.2, ih]
  | opened _ ih => rw [matched_snoc_iff_of_ne openByte_ne_closeByte, ih]
  | @closed bytes o' _ _ hcourse ih =>
    have hclose := hcourse.layers.matched_close
    rw [List.mem_append, List.mem_singleton, Prod.mk.injEq, ih, matched_snoc_iff]
    constructor
    · rintro (hm | ⟨rfl, rfl⟩)
      · exact Or.inl hm
      · exact Or.inr ⟨rfl, hclose⟩
    · rintro (hm | ⟨rfl, hm⟩)
      · exact Or.inl hm
      · exact Or.inr ⟨hm.opening_unique hclose, rfl⟩

/-- Every open loop was opened among the bytes. -/
theorem opened_lt (h : Course bytes opened closed) : ∀ o ∈ opened, o < bytes.length :=
  h.layers.lt_length

/-- The open loops are listed from the innermost outwards. -/
theorem pairwise_opened (h : Course bytes opened closed) : opened.Pairwise (· > ·) := by
  induction h with
  | nil => exact List.Pairwise.nil
  | inert _ _ ih => exact ih
  | opened hcourse ih => exact List.pairwise_cons.2 ⟨hcourse.opened_lt, ih⟩
  | closed _ ih => exact (List.pairwise_cons.1 ih).2

/-- The loops left open are those opened and not closed among the bytes. -/
theorem mem_opened_iff (h : Course bytes opened closed) {o : Nat} :
    o ∈ opened ↔ Unclosed bytes bytes.length o := by
  induction h with
  | nil => simp [Unclosed]
  | @inert bytes byte _ _ _ hb ih =>
    rw [List.length_append, List.length_singleton, unclosed_snoc_iff, ih]
    constructor
    · intro hu
      exact Or.inl ⟨hu, fun hm => hb.2 (by simpa using hm.closes)⟩
    · rintro (⟨hu, -⟩ | ⟨-, hopen⟩)
      · exact hu
      · exact absurd hopen hb.1
  | @opened bytes _ _ _ ih =>
    rw [List.length_append, List.length_singleton, unclosed_snoc_iff, List.mem_cons, ih]
    constructor
    · rintro (rfl | hu)
      · exact Or.inr ⟨rfl, rfl⟩
      · exact Or.inl ⟨hu, fun hm => openByte_ne_closeByte (by simpa using hm.closes)⟩
    · rintro (⟨hu, -⟩ | ⟨rfl, -⟩)
      · exact Or.inr hu
      · exact Or.inl rfl
  | @closed bytes o' opened _ hcourse ih =>
    have hclose := hcourse.layers.matched_close
    have houter : ∀ p ∈ opened, o' > p := (List.pairwise_cons.1 hcourse.pairwise_opened).1
    rw [List.length_append, List.length_singleton, unclosed_snoc_iff, ← ih, List.mem_cons]
    constructor
    · intro ho
      refine Or.inl ⟨Or.inr ho, fun hm => ?_⟩
      exact absurd (hm.opening_unique hclose) (Nat.ne_of_lt (houter o ho))
    · rintro (⟨rfl | ho, hfree⟩ | ⟨-, hopen⟩)
      · exact absurd hclose hfree
      · exact ho
      · exact absurd hopen openByte_ne_closeByte.symm

/-- Every end of a loop among the bytes has closed one. -/
theorem exists_opening (h : Course bytes opened closed) {c : Nat}
    (hc : bytes[c]? = some closeByte) : ∃ o, Matched bytes o c := by
  induction h generalizing c with
  | nil => simp at hc
  | inert _ hb ih =>
    rcases getElem?_snoc_eq_some_iff.1 hc with hc | ⟨-, hbyte⟩
    · obtain ⟨o, hm⟩ := ih hc
      exact ⟨o, matched_snoc_iff.2 (Or.inl hm)⟩
    · exact absurd hbyte.symm hb.2
  | opened _ ih =>
    rcases getElem?_snoc_eq_some_iff.1 hc with hc | ⟨-, hbyte⟩
    · obtain ⟨o, hm⟩ := ih hc
      exact ⟨o, matched_snoc_iff.2 (Or.inl hm)⟩
    · exact absurd hbyte.symm openByte_ne_closeByte
  | closed hcourse ih =>
    rcases getElem?_snoc_eq_some_iff.1 hc with hc | ⟨rfl, -⟩
    · obtain ⟨o, hm⟩ := ih hc
      exact ⟨o, matched_snoc_iff.2 (Or.inl hm)⟩
    · exact ⟨_, hcourse.layers.matched_close⟩

/-- A start of a loop among the bytes that is not left open has an end among them. -/
theorem exists_closing (h : Course bytes [] closed) {o : Nat} (ho : bytes[o]? = some openByte) :
    ∃ c, Matched bytes o c := by
  refine Classical.byContradiction fun hfree => ?_
  have hu : Unclosed bytes bytes.length o :=
    ⟨(List.getElem?_eq_some_iff.1 ho).1, ho, fun c _ hm => hfree ⟨c, hm⟩⟩
  exact absurd (h.mem_opened_iff.2 hu) (List.not_mem_nil)

/-! ### One course at most -/

/-- How the last byte got into a course. -/
theorem of_snoc {byte : UInt8} (h : Course (bytes ++ [byte]) opened closed) :
    (IsInert byte ∧ Course bytes opened closed) ∨
    (byte = openByte ∧ ∃ outer, opened = bytes.length :: outer ∧ Course bytes outer closed) ∨
    (byte = closeByte ∧ ∃ o earlier, closed = earlier ++ [(o, bytes.length)] ∧
      Course bytes (o :: opened) earlier) := by
  generalize heq : bytes ++ [byte] = whole at h
  cases h with
  | nil => simp at heq
  | inert hcourse hb =>
    obtain ⟨rfl, hlast⟩ := List.append_inj' heq rfl
    cases hlast
    exact Or.inl ⟨hb, hcourse⟩
  | opened hcourse =>
    obtain ⟨rfl, hlast⟩ := List.append_inj' heq rfl
    cases hlast
    exact Or.inr (Or.inl ⟨rfl, _, rfl, hcourse⟩)
  | closed hcourse =>
    obtain ⟨rfl, hlast⟩ := List.append_inj' heq rfl
    cases hlast
    exact Or.inr (Or.inr ⟨rfl, _, _, rfl, hcourse⟩)

/-- Some bytes have one course. -/
theorem unique {opened' : List Nat} {closed' : List (Nat × Nat)} (h : Course bytes opened closed)
    (h' : Course bytes opened' closed') : opened = opened' ∧ closed = closed' := by
  induction h generalizing opened' closed' with
  | nil =>
    generalize heq : ([] : List UInt8) = bytes at h'
    cases h' with
    | nil => exact ⟨rfl, rfl⟩
    | inert | opened | closed => simp at heq
  | inert _ hb ih =>
    rcases h'.of_snoc with ⟨-, hbefore⟩ | ⟨hopen, -⟩ | ⟨hclose, -⟩
    · exact ih hbefore
    · exact absurd hopen hb.1
    · exact absurd hclose hb.2
  | opened _ ih =>
    rcases h'.of_snoc with ⟨hb, -⟩ | ⟨-, outer, rfl, hbefore⟩ | ⟨hclose, -⟩
    · exact absurd rfl hb.1
    · obtain ⟨rfl, rfl⟩ := ih hbefore
      exact ⟨rfl, rfl⟩
    · exact absurd hclose openByte_ne_closeByte
  | closed _ ih =>
    rcases h'.of_snoc with ⟨hb, -⟩ | ⟨hopen, -⟩ | ⟨-, o, earlier, rfl, hbefore⟩
    · exact absurd rfl hb.2
    · exact absurd hopen openByte_ne_closeByte.symm
    · obtain ⟨heq, rfl⟩ := ih hbefore
      obtain ⟨rfl, rfl⟩ := List.cons.inj heq
      exact ⟨rfl, rfl⟩

/-- What some bytes close is closed first when more bytes follow. -/
theorem closed_isPrefix_append {more : List UInt8} {opened' : List Nat} {closed' : List (Nat × Nat)}
    (h : Course bytes opened closed) (h' : Course (bytes ++ more) opened' closed') :
    closed <+: closed' := by
  induction more using List.reverseRecOn generalizing opened' closed' with
  | nil =>
    rw [List.append_nil] at h'
    obtain ⟨-, rfl⟩ := h.unique h'
    exact List.prefix_refl _
  | append_singleton more byte ih =>
    rw [← List.append_assoc] at h'
    rcases h'.of_snoc with ⟨-, hbefore⟩ | ⟨-, outer, rfl, hbefore⟩ | ⟨-, o, earlier, rfl, hbefore⟩
    · exact ih hbefore
    · exact ih hbefore
    · exact (ih hbefore).trans (List.prefix_append _ _)

end Course

/-- Balanced bytes are read without leaving a loop open. -/
theorem Balanced.exists_course {image : List UInt8} (h : Balanced image) :
    ∃ closed, Course image [] closed :=
  Course.nil.append_balanced h

end LoopTable
