import LoopTable.Nesting

/-!
# Depth and the partners of loop instructions

The depth of an image at an address is the number of loops opened before it less the number closed
before it. Balanced images never go below the depth they start from and come back to it
(`Balanced.surplus_take_nonneg`, `Balanced.surplus_eq_zero`), so between the two ends of a loop the
depth stays above that of its start (`Matched.depth_lt`) and right behind its end it is back there
(`Matched.depth_behind`).

From these two facts alone follow the three laws of matching: an end has one start
(`Matched.opening_unique`), a start has one end (`Matched.closing_unique`), and two loops lie apart
or one inside the other (`Matched.laminar`).
-/

namespace LoopTable

theorem openByte_ne_closeByte : openByte ≠ closeByte := by decide

/-! ## Surplus of opened loops -/

/-- How many more loops some bytes open than they close. -/
def surplus (bytes : List UInt8) : Int :=
  bytes.count openByte - bytes.count closeByte

@[simp] theorem surplus_nil : surplus [] = 0 := rfl

@[simp] theorem surplus_append (first second : List UInt8) :
    surplus (first ++ second) = surplus first + surplus second := by
  simp only [surplus, List.count_append]
  omega

@[simp] theorem surplus_open : surplus [openByte] = 1 := by decide

@[simp] theorem surplus_close : surplus [closeByte] = -1 := by decide

theorem surplus_inert {byte : UInt8} (h : IsInert byte) : surplus [byte] = 0 := by
  simp [surplus, h.1, h.2]

theorem Balanced.surplus_eq_zero {image : List UInt8} (h : Balanced image) : surplus image = 0 := by
  rw [surplus, h.count_eq, Int.sub_self]

/-- No first part of a balanced image closes more loops than it opens. -/
theorem Balanced.surplus_take_nonneg {image : List UInt8} (h : Balanced image) (k : Nat) :
    0 ≤ surplus (image.take k) := by
  induction h generalizing k with
  | nil => simp
  | @inert byte h =>
    cases k with
    | zero => simp
    | succ k => simp [surplus_inert h]
  | @loop body h ih =>
    cases k with
    | zero => simp
    | succ k =>
      have hbody := ih k
      have hlast : -1 ≤ surplus ([closeByte].take (k + 1 - (openByte :: body).length)) := by
        cases k + 1 - (openByte :: body).length <;> simp
      rw [List.take_append, List.take_succ_cons, ← List.singleton_append, surplus_append,
        surplus_append, surplus_open]
      omega
  | @append first second h₁ _ ih₁ ih₂ =>
    rw [List.take_append, surplus_append]
    have h₁' := ih₁ k
    have h₂' := ih₂ (k - first.length)
    omega

/-! ## Depth at an address -/

theorem depthAfter_eq_surplus (image : List UInt8) (k : Nat) :
    depthAfter image k = surplus (image.take k) := rfl

/-- The depth grows by what the bytes in between open. -/
theorem depthAfter_add (image : List UInt8) (k n : Nat) :
    depthAfter image (k + n) = depthAfter image k + surplus ((image.drop k).take n) := by
  rw [depthAfter_eq_surplus, List.take_add, surplus_append, depthAfter_eq_surplus]

theorem depthAfter_succ {image : List UInt8} {k : Nat} {byte : UInt8} (h : image[k]? = some byte) :
    depthAfter image (k + 1) = depthAfter image k + surplus [byte] := by
  rw [depthAfter_eq_surplus, List.take_add_one, h, surplus_append]
  rfl

theorem depthAfter_succ_of_open {image : List UInt8} {k : Nat} (h : image[k]? = some openByte) :
    depthAfter image (k + 1) = depthAfter image k + 1 := by
  rw [depthAfter_succ h, surplus_open]

theorem depthAfter_succ_of_close {image : List UInt8} {k : Nat} (h : image[k]? = some closeByte) :
    depthAfter image (k + 1) = depthAfter image k - 1 := by
  rw [depthAfter_succ h, surplus_close]
  rfl

theorem Balanced.depthAfter_nonneg {image : List UInt8} (h : Balanced image) (k : Nat) :
    0 ≤ depthAfter image k :=
  h.surplus_take_nonneg k

theorem Balanced.depthAfter_length {image : List UInt8} (h : Balanced image) :
    depthAfter image image.length = 0 := by
  rw [depthAfter_eq_surplus, List.take_length, h.surplus_eq_zero]

/-! ## Depth between the ends of a loop -/

theorem take_drop_eq_between {image : List UInt8} {o c n : Nat} (hn : o + 1 + n ≤ c) :
    (image.drop (o + 1)).take n = (between image o c).take n := by
  rw [between, List.drop_take, List.take_take, Nat.min_eq_left (by omega)]

namespace Matched

variable {image : List UInt8} {o c o' c' : Nat}

/-- From behind its start to its end, a loop lies deeper than its start. -/
theorem depth_lt (h : Matched image o c) {k : Nat} (hok : o < k) (hkc : k ≤ c) :
    depthAfter image o < depthAfter image k := by
  obtain ⟨n, rfl⟩ : ∃ n, k = o + 1 + n := ⟨k - (o + 1), by omega⟩
  have hnonneg := h.balanced.surplus_take_nonneg n
  rw [depthAfter_add, take_drop_eq_between hkc, depthAfter_succ_of_open h.opens]
  omega

/-- Behind the end of a loop the depth is that of its start. -/
theorem depth_behind (h : Matched image o c) : depthAfter image (c + 1) = depthAfter image o := by
  obtain ⟨n, rfl⟩ : ∃ n, c = o + 1 + n := ⟨c - (o + 1), by have := h.lt; omega⟩
  have hlength : (between image o (o + 1 + n)).length ≤ n := by
    rw [between, List.length_drop, List.length_take]
    omega
  rw [depthAfter_succ_of_close h.closes, depthAfter_add, take_drop_eq_between (Nat.le_refl _),
    List.take_of_length_le hlength, h.balanced.surplus_eq_zero, depthAfter_succ_of_open h.opens]
  omega

/-- Two loops that overlap lie one inside the other. -/
theorem closing_lt_of_inside (h : Matched image o c) (h' : Matched image o' c') (ho : o < o')
    (hc : o' < c) : c' < c := by
  have houter := h.depth_lt ho (Nat.le_of_lt hc)
  have hbehind := h.depth_behind
  rcases Nat.lt_trichotomy c' c with hlt | rfl | hgt
  · exact hlt
  · -- One end for both: right behind it the depth would be that of both starts.
    have := h'.depth_behind
    omega
  · -- The outer loop ends inside the inner one, which is too deep for it.
    have := h'.depth_lt (k := c + 1) (by omega) (by omega)
    omega

/-- The end of a loop has one start. -/
theorem opening_unique (h : Matched image o c) (h' : Matched image o' c) : o = o' := by
  rcases Nat.lt_trichotomy o o' with hlt | rfl | hgt
  · exact absurd (h.closing_lt_of_inside h' hlt h'.lt) (Nat.lt_irrefl c)
  · rfl
  · exact absurd (h'.closing_lt_of_inside h hgt h.lt) (Nat.lt_irrefl c)

/-- The start of a loop has one end. -/
theorem closing_unique (h : Matched image o c) (h' : Matched image o c') : c = c' := by
  have hbehind := h.depth_behind
  have hbehind' := h'.depth_behind
  rcases Nat.lt_trichotomy c c' with hlt | rfl | hgt
  · have := h'.depth_lt (k := c + 1) (by have := h.lt; omega) (by omega)
    omega
  · rfl
  · have := h.depth_lt (k := c' + 1) (by have := h'.lt; omega) (by omega)
    omega

/-- Two loops lie apart, or one lies inside the other. -/
theorem laminar (h : Matched image o c) (h' : Matched image o' c') (hne : o ≠ o') :
    c < o' ∨ c' < o ∨ (o < o' ∧ c' < c) ∨ (o' < o ∧ c < c') := by
  have hne_ends : c ≠ o' ∧ c' ≠ o := by
    constructor
    · rintro rfl
      exact openByte_ne_closeByte (Option.some.inj (h'.opens.symm.trans h.closes))
    · rintro rfl
      exact openByte_ne_closeByte (Option.some.inj (h.opens.symm.trans h'.closes))
  rcases Nat.lt_or_gt_of_ne hne with hlt | hgt
  · rcases Nat.lt_or_ge c o' with hapart | hinside
    · exact Or.inl hapart
    · exact Or.inr (Or.inr (Or.inl ⟨hlt, h.closing_lt_of_inside h' hlt (by omega)⟩))
  · rcases Nat.lt_or_ge c' o with hapart | hinside
    · exact Or.inr (Or.inl hapart)
    · exact Or.inr (Or.inr (Or.inr ⟨hgt, h'.closing_lt_of_inside h hgt (by omega)⟩))

end Matched

end LoopTable
