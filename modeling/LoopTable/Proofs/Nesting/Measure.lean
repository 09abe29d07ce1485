import Mathlib.Order.Bounds.Defs
import Mathlib.Order.Nat
import LoopTable.Proofs.Nesting.Course

/-!
# Counting loops

What can be counted in an image: its loops and the greatest number of them open at one time.

* `maxNesting_le_iff` says that `maxNesting` is the least bound on the depth at all addresses. The
  laws of `maxNesting` follow from it: one byte more (`maxNesting_snoc`), two images one behind the
  other (`Balanced.maxNesting_append`), a loop around an image (`maxNesting_loop`).
* `isGreatest_maxNesting` says that it is the greatest of the `depths` behind the first parts of the
  image, so one of them reaches it.
* `Course.length_closed` says that a loop is closed for each end read. What the two counts have to
  do with each other is `maxNesting_le_count` and `Balanced.maxNesting_eq_zero_iff`.
-/

namespace LoopTable

/-! ## The greatest depth -/

theorem foldl_max_le_iff (f : Nat → Nat) (addresses : List Nat) (start bound : Nat) :
    addresses.foldl (fun n k => max n (f k)) start ≤ bound ↔
      start ≤ bound ∧ ∀ k ∈ addresses, f k ≤ bound := by
  induction addresses generalizing start with
  | nil => simp
  | cons k addresses ih =>
    rw [List.foldl_cons, ih, Nat.max_le, List.forall_mem_cons, and_assoc]

/-- Behind the image the depth stays as it is. -/
theorem depthAfter_of_length_le {image : List UInt8} {k : Nat} (h : image.length ≤ k) :
    depthAfter image k = surplus image := by
  rw [depthAfter_eq_surplus, List.take_of_length_le h]

/-- The greatest depth is the least bound on the depth anywhere. -/
theorem maxNesting_le_iff {image : List UInt8} {bound : Nat} :
    maxNesting image ≤ bound ↔ ∀ k, depthAfter image k ≤ bound := by
  rw [maxNesting, foldl_max_le_iff]
  constructor
  · rintro ⟨-, h⟩ k
    rcases Nat.lt_or_ge k image.length with hlt | hge
    · exact Int.toNat_le.1 (h k (List.mem_range.2 (Nat.lt_succ_of_lt hlt)))
    · rw [depthAfter_of_length_le hge, ← depthAfter_of_length_le (Nat.le_refl _)]
      exact Int.toNat_le.1 (h _ (List.mem_range.2 (Nat.lt_succ_self _)))
  · exact fun h => ⟨Nat.zero_le _, fun k _ => Int.toNat_le.2 (h k)⟩

theorem depthAfter_le_maxNesting (image : List UInt8) (k : Nat) :
    depthAfter image k ≤ maxNesting image :=
  maxNesting_le_iff.1 (Nat.le_refl _) k

/-- Inside the first of two images the second one does not count. -/
theorem depthAfter_append_left {first : List UInt8} {k : Nat} (h : k ≤ first.length)
    (second : List UInt8) : depthAfter (first ++ second) k = depthAfter first k := by
  rw [depthAfter_eq_surplus, depthAfter_eq_surplus, List.take_append_of_le_length h]

/-- Inside the second of two images the depth counts from the surplus of the first. -/
theorem depthAfter_append_right (first second : List UInt8) (k : Nat) :
    depthAfter (first ++ second) (first.length + k) = surplus first + depthAfter second k := by
  rw [depthAfter_eq_surplus, depthAfter_eq_surplus, List.take_length_add_append, surplus_append]

/-- The greatest depth of two images is reached in the first of them or in the second. -/
theorem maxNesting_append_le_iff {first second : List UInt8} {bound : Nat} :
    maxNesting (first ++ second) ≤ bound ↔
      maxNesting first ≤ bound ∧ ∀ k, surplus first + depthAfter second k ≤ bound := by
  rw [maxNesting_le_iff, maxNesting_le_iff]
  constructor
  · refine fun h => ⟨fun k => ?_, fun k => ?_⟩
    · rcases Nat.le_total k first.length with hle | hge
      · rw [← depthAfter_append_left hle second]
        exact h k
      · rw [depthAfter_of_length_le hge, ← depthAfter_of_length_le (Nat.le_refl _),
          ← depthAfter_append_left (Nat.le_refl _) second]
        exact h first.length
    · rw [← depthAfter_append_right]
      exact h (first.length + k)
  · rintro ⟨hfirst, hsecond⟩ k
    rcases Nat.le_total k first.length with hle | hge
    · rw [depthAfter_append_left hle]
      exact hfirst k
    · obtain ⟨n, rfl⟩ := Nat.exists_eq_add_of_le hge
      rw [depthAfter_append_right]
      exact hsecond n

/-- One byte more can only reach a new depth behind itself. -/
theorem maxNesting_snoc (bytes : List UInt8) (byte : UInt8) :
    maxNesting (bytes ++ [byte]) = max (maxNesting bytes) (surplus (bytes ++ [byte])).toNat := by
  refine eq_of_forall_ge_iff fun bound => ?_
  have hdepth := depthAfter_le_maxNesting bytes bytes.length
  rw [depthAfter_of_length_le (Nat.le_refl _)] at hdepth
  rw [Nat.max_le, maxNesting_append_le_iff, Int.toNat_le, surplus_append]
  refine and_congr_right fun hbytes => ⟨fun h => h 1, fun h k => ?_⟩
  cases k with
  | zero =>
    rw [depthAfter_eq_surplus, List.take_zero, surplus_nil]
    omega
  | succ k =>
    rw [depthAfter_of_length_le (by simp)]
    exact h

/-- A byte that opens no loop reaches no new depth. -/
theorem maxNesting_snoc_of_le {bytes : List UInt8} {byte : UInt8} (h : surplus [byte] ≤ 0) :
    maxNesting (bytes ++ [byte]) = maxNesting bytes := by
  have hdepth := depthAfter_le_maxNesting bytes bytes.length
  rw [depthAfter_of_length_le (Nat.le_refl _)] at hdepth
  rw [maxNesting_snoc, surplus_append]
  omega

/-- Of two images one behind the other, the deeper one gives the greatest depth. -/
theorem Balanced.maxNesting_append {first : List UInt8} (h : Balanced first)
    (second : List UInt8) :
    maxNesting (first ++ second) = max (maxNesting first) (maxNesting second) := by
  refine eq_of_forall_ge_iff fun bound => ?_
  rw [maxNesting_append_le_iff, Nat.max_le, h.surplus_eq_zero]
  simp only [Int.zero_add, maxNesting_le_iff]

/-- A loop around an image makes it one deeper. -/
theorem maxNesting_loop (body : List UInt8) :
    maxNesting (openByte :: body ++ [closeByte]) = maxNesting body + 1 := by
  have hclosed : maxNesting (openByte :: body ++ [closeByte]) = maxNesting (openByte :: body) :=
    maxNesting_snoc_of_le (by decide)
  refine eq_of_forall_ge_iff fun bound => ?_
  rw [hclosed, ← List.singleton_append, maxNesting_append_le_iff, surplus_open]
  have hone : maxNesting [openByte] = 1 := by decide
  rw [hone]
  constructor
  · rintro ⟨hpos, hbody⟩
    obtain ⟨n, rfl⟩ := Nat.exists_eq_add_of_le hpos
    have hle : maxNesting body ≤ n := by
      refine maxNesting_le_iff.2 fun k => ?_
      have hk := hbody k
      omega
    omega
  · refine fun h => ⟨by omega, fun k => ?_⟩
    have hk := depthAfter_le_maxNesting body k
    omega

/-- The depths behind the first parts of an image, from none of it to all of it. -/
def depths (image : List UInt8) : Set Int :=
  {depth | ∃ first, first <+: image ∧ surplus first = depth}

/-- Some first part of the image reaches the greatest depth. -/
theorem exists_surplus_eq_maxNesting (image : List UInt8) :
    ∃ first, first <+: image ∧ surplus first = maxNesting image := by
  induction image using List.reverseRecOn with
  | nil => exact ⟨[], List.prefix_refl [], rfl⟩
  | append_singleton bytes byte ih =>
    rw [maxNesting_snoc]
    rcases Nat.le_total (surplus (bytes ++ [byte])).toNat (maxNesting bytes) with hle | hge
    · obtain ⟨first, hfirst, hsurplus⟩ := ih
      exact ⟨first, hfirst.trans (List.prefix_append ..), by rw [hsurplus, Nat.max_eq_left hle]⟩
    · rw [Nat.max_eq_right hge]
      rcases Int.le_total 0 (surplus (bytes ++ [byte])) with hnonneg | hneg
      · exact ⟨bytes ++ [byte], List.prefix_refl _, (Int.toNat_of_nonneg hnonneg).symm⟩
      · exact ⟨[], List.nil_prefix, by rw [Int.toNat_of_nonpos hneg]; rfl⟩

/-- The greatest depth is the greatest one behind a first part of the image. -/
theorem isGreatest_maxNesting (image : List UInt8) :
    IsGreatest (depths image) (maxNesting image) := by
  refine ⟨exists_surplus_eq_maxNesting image, ?_⟩
  rintro _ ⟨first, hfirst, rfl⟩
  rw [List.prefix_iff_eq_take.1 hfirst, ← depthAfter_eq_surplus]
  exact depthAfter_le_maxNesting image first.length

/-! ## The number of loops -/

/-- No depth needs more loops than are opened. -/
theorem maxNesting_le_count (image : List UInt8) : maxNesting image ≤ image.count openByte := by
  refine maxNesting_le_iff.2 fun k => ?_
  have htake := (List.take_sublist k image).count_le openByte
  rw [depthAfter]
  omega

/-- Where every loop is opened before it is closed, no depth is reached exactly if there is no
loop. -/
theorem Balanced.maxNesting_eq_zero_iff {image : List UInt8} (h : Balanced image) :
    maxNesting image = 0 ↔ image.count openByte = 0 := by
  constructor
  · intro hzero
    refine List.count_eq_zero.2 fun hmem => ?_
    obtain ⟨k, hk⟩ := List.mem_iff_getElem?.1 hmem
    have hbefore := h.depthAfter_nonneg k
    have hbehind := depthAfter_le_maxNesting image (k + 1)
    rw [depthAfter_succ_of_open hk] at hbehind
    omega
  · intro hzero
    exact Nat.le_zero.1 (hzero ▸ maxNesting_le_count image)

/-- Each byte opens a loop or closes one or does neither. -/
theorem count_open_add_count_close_le_length (bytes : List UInt8) :
    bytes.count openByte + bytes.count closeByte ≤ bytes.length := by
  induction bytes with
  | nil => exact Nat.le_refl 0
  | cons byte bytes ih =>
    rw [List.count_cons, List.count_cons, List.length_cons]
    by_cases hopen : byte = openByte
    · subst hopen
      rw [beq_self_eq_true, beq_false_of_ne openByte_ne_closeByte, if_pos rfl,
        if_neg Bool.false_ne_true]
      omega
    · rw [beq_false_of_ne hopen, if_neg Bool.false_ne_true]
      split <;> omega

/-- A loop is closed for each end that was read. -/
theorem Course.length_closed {bytes : List UInt8} {opened : List Nat} {closed : List (Nat × Nat)}
    (h : Course bytes opened closed) : closed.length = bytes.count closeByte := by
  induction h with
  | nil => rfl
  | inert _ hb ih =>
    rw [List.count_append, List.count_singleton, beq_false_of_ne hb.2, ih]
    rfl
  | opened _ ih =>
    rw [List.count_append, ih]
    rfl
  | closed _ ih =>
    rw [List.length_append, List.count_append, ih]
    rfl

end LoopTable
