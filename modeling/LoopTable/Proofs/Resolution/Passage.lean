import LoopTable.Proofs.Nesting.Course

/-!
# How far a scan can come

`Passed` is what a scan has found when it has come to an address of an image and can go on from
there; `Blocks` tells the addresses that no scan can go beyond, from the image alone. No address
that has been passed blocks (`Passed.not_blocks`).

What was found depends on the address only (`Passed.unique`), and what was found earlier is a first
part of it (`Passed.closed_isPrefix_of_le`). This is what scans that stop at different addresses
have in common.
-/

namespace LoopTable

/-! ## Addresses passed -/

/-- A scan of an image has come to address `k`, with some loops open and some closed. -/
structure Passed (image : List UInt8) (k : Nat) (opened : List Nat)
    (closed : List (Nat × Nat)) : Prop where
  /-- The address lies in the image or right behind it. -/
  le_length : k ≤ image.length
  /-- The course of the image up to the address. -/
  course : Course (image.take k) opened closed
  /-- All destinations so far fit into words. -/
  closing_lt : ∀ o c, (o, c) ∈ closed → c < 65535

/-- The start of a loop is open up to its end. -/
theorem Matched.unclosed {image : List UInt8} {o c : Nat} (h : Matched image o c) :
    Unclosed image c o :=
  ⟨h.lt, h.opens, fun _ hc h' => absurd (h.closing_unique h') (Nat.ne_of_gt hc)⟩

theorem take_succ_of_close {image : List UInt8} {k : Nat} (hclose : image[k]? = some closeByte) :
    image.take (k + 1) = image.take k ++ [closeByte] := by
  rw [List.take_add_one, hclose]
  rfl

/-- The innermost loop that the bytes before an end of a loop leave open is the one it closes. -/
theorem Layers.matched_next {image : List UInt8} {k o : Nat} {opened : List Nat}
    (h : Layers (image.take k) (o :: opened)) (hclose : image[k]? = some closeByte) :
    Matched image o k := by
  have hlt := (List.getElem?_eq_some_iff.1 hclose).1
  have hm := h.matched_close
  rw [← take_succ_of_close hclose, List.length_take, Nat.min_eq_left (Nat.le_of_lt hlt)] at hm
  exact (matched_take_iff (Nat.lt_succ_self k)).1 hm

namespace Passed

variable {image : List UInt8} {k o : Nat} {opened : List Nat} {closed : List (Nat × Nat)}

theorem length_take (h : Passed image k opened closed) : (image.take k).length = k := by
  rw [List.length_take, Nat.min_eq_left h.le_length]

/-- The depth where a scan has come to is the number of loops it has open. -/
theorem depthAfter_eq (h : Passed image k opened closed) : depthAfter image k = opened.length :=
  h.course.surplus_eq

/-- The open loops are those not closed before the address. -/
theorem mem_opened_iff (h : Passed image k opened closed) :
    o ∈ opened ↔ Unclosed image k o := by
  rw [h.course.mem_opened_iff, h.length_take, unclosed_take_iff]

/-- An end of a loop that was passed has a start, and fits into a word. -/
theorem exists_opening (h : Passed image k opened closed) {c : Nat} (hc : c < k)
    (hclose : image[c]? = some closeByte) : ∃ o, Matched image o c ∧ c < 65535 := by
  rw [← List.getElem?_take_of_lt hc] at hclose
  obtain ⟨o, hm⟩ := h.course.exists_opening hclose
  exact ⟨o, (matched_take_iff hc).1 hm, h.closing_lt o c (h.course.mem_closed_iff.2 hm)⟩

/-- The innermost open loop is the one that an end of a loop closes next. -/
theorem matched_next (h : Passed image k (o :: opened) closed)
    (hclose : image[k]? = some closeByte) : Matched image o k :=
  h.course.layers.matched_next hclose

/-- The end of a loop is passed when a word can lead behind it. -/
theorem close (h : Passed image k (o :: opened) closed) (hclose : image[k]? = some closeByte)
    (hk : k < 65535) : Passed image (k + 1) opened (closed ++ [(o, k)]) where
  le_length := (List.getElem?_eq_some_iff.1 hclose).1
  course := by
    have hcourse := h.course.closed
    rwa [← take_succ_of_close hclose, h.length_take] at hcourse
  closing_lt := by
    intro o' c' hmem
    rcases List.mem_append.1 hmem with hmem | hmem
    · exact h.closing_lt o' c' hmem
    · obtain ⟨-, rfl⟩ := Prod.mk.inj (List.mem_singleton.1 hmem)
      exact hk

/-! ### Two scans of one image -/

variable {k' : Nat} {opened' : List Nat} {closed' : List (Nat × Nat)}

theorem unique (h : Passed image k opened closed) (h' : Passed image k opened' closed') :
    opened = opened' ∧ closed = closed' :=
  h.course.unique h'.course

/-- Loops closed before an earlier address are closed first. -/
theorem closed_isPrefix_of_le (h : Passed image k opened closed)
    (h' : Passed image k' opened' closed') (hk : k ≤ k') : closed <+: closed' := by
  obtain ⟨n, rfl⟩ := Nat.exists_eq_add_of_le hk
  have hcourse := h'.course
  rw [List.take_add] at hcourse
  exact h.course.closed_isPrefix_append hcourse

end Passed

/-! ## Addresses that block -/

/-- An end of a loop that no scan passes: there is nothing for it to close, or it stands too far for
a word to lead behind it. -/
def Blocks (image : List UInt8) (e : Nat) : Prop :=
  image[e]? = some closeByte ∧ ((∀ o, ¬ Unclosed image e o) ∨ 0xFFFF ≤ e)

/-- The first address that no scan passes. -/
structure FirstBlock (image : List UInt8) (e : Nat) : Prop where
  /-- No scan passes it. -/
  blocks : Blocks image e
  /-- Nothing before it is of that kind. -/
  least : ∀ e', Blocks image e' → e ≤ e'

theorem FirstBlock.unique {image : List UInt8} {e e' : Nat} (h : FirstBlock image e)
    (h' : FirstBlock image e') : e = e' :=
  Nat.le_antisymm (h.least e' h'.blocks) (h'.least e h.blocks)

namespace Passed

variable {image : List UInt8} {k : Nat} {opened : List Nat} {closed : List (Nat × Nat)}

/-- No address that a scan has passed blocks. -/
theorem not_blocks (h : Passed image k opened closed) {e : Nat} (he : e < k) :
    ¬ Blocks image e := by
  rintro ⟨hclose, hblock⟩
  obtain ⟨o, hm, hlt⟩ := h.exists_opening he hclose
  rcases hblock with hfree | hfar
  · exact hfree o hm.unclosed
  · omega

theorem firstBlock (h : Passed image k opened closed) (hk : Blocks image k) :
    FirstBlock image k :=
  ⟨hk, fun _ he => Nat.le_of_not_lt fun hlt => h.not_blocks hlt he⟩

theorem not_blocks_of_length (h : Passed image image.length opened closed) (e : Nat) :
    ¬ Blocks image e :=
  fun he => h.not_blocks (List.getElem?_eq_some_iff.1 he.1).1 he

/-- An end of a loop with nothing open blocks. -/
theorem blocks_of_nil (h : Passed image k [] closed) (hclose : image[k]? = some closeByte) :
    Blocks image k :=
  ⟨hclose, Or.inl fun _ ho => List.not_mem_nil (h.mem_opened_iff.2 ho)⟩

end Passed

end LoopTable
