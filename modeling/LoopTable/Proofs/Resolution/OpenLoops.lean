import Mathlib.Data.Set.Card
import LoopTable.Proofs.Resolution.Records

/-!
# The stack of open loops

Between two visits a scan keeps the addresses of the loops it has open. This module says what the
stack holds, from the image and the address alone.

* `Gaps` says that the bytes around the addresses are balanced: before the first, between
  neighbours, and behind the last. The gaps are the layers of `Layers`, read from the ground up
  (`Passed.gaps`). They are what makes the innermost address the start of the next loop that is
  closed (`Passed.matched_iff`).
* `Pending.Holds` collects what there is to say about a stack, and
  `scan_keeps_stack_of_open_loops` says it of every scan that has come to an address.
-/

namespace LoopTable

/-! ## Gaps between open loops -/

/-- Before the start of an open loop lie the layers of the loops around it. -/
theorem Layers.take {bytes : List UInt8} {o : Nat} {outer inner : List Nat}
    (h : Layers bytes (inner ++ o :: outer)) :
    Layers (bytes.take o) outer := by
  induction inner generalizing bytes with
  | nil =>
    cases h with
    | above hbefore _ =>
      rw [List.take_left]
      exact hbefore
  | cons i inner ih =>
    cases h with
    | @above before inside _ hbefore hinside =>
      have hlt := hbefore.lt_length o (List.mem_append_right inner List.mem_cons_self)
      rw [List.take_append_of_le_length (Nat.le_of_lt hlt)]
      exact ih hbefore

/-- The bytes around some addresses of an image are balanced, up to address `k`. The addresses are
listed from left to right. -/
structure Gaps (image : List UInt8) (k : Nat) (addresses : List Nat) : Prop where
  /-- Without addresses, there is one gap. -/
  whole : addresses = [] → Balanced (image.take k)
  /-- The gap before the first address. -/
  first : ∀ o, addresses.head? = some o → Balanced (image.take o)
  /-- The gaps between neighbours. -/
  inner : ∀ before o o' after, addresses = before ++ o :: o' :: after →
    Balanced (between image o o')
  /-- The gap behind the last address. -/
  last : ∀ o, addresses.getLast? = some o → Balanced (between image o k)

namespace Passed

variable {image : List UInt8} {k : Nat} {opened : List Nat} {closed : List (Nat × Nat)}

theorem opened_lt (h : Passed image k opened closed) {o : Nat} (ho : o ∈ opened) : o < k :=
  (h.mem_opened_iff.1 ho).1

theorem mem_closed_iff (h : Passed image k opened closed) {o c : Nat} :
    (o, c) ∈ closed ↔ Matched image o c ∧ c < k := by
  rw [h.course.mem_closed_iff]
  constructor
  · intro hm
    have hc : c < k := h.length_take ▸ hm.closing_lt_length
    exact ⟨(matched_take_iff hc).1 hm, hc⟩
  · rintro ⟨hm, hc⟩
    exact (matched_take_iff hc).2 hm

/-- The open loops leave gaps of balanced bytes. -/
theorem gaps (h : Passed image k opened closed) : Gaps image k opened.reverse where
  whole hnone := by
    obtain rfl := List.reverse_eq_nil_iff.1 hnone
    exact h.course.balanced
  first o ho := by
    rw [List.head?_reverse] at ho
    obtain ⟨inner, rfl⟩ := List.getLast?_eq_some_iff.1 ho
    have hbelow := h.course.layers.take.balanced
    rwa [List.take_take, Nat.min_eq_left (Nat.le_of_lt (h.opened_lt (by simp)))] at hbelow
  inner before o o' after heq := by
    obtain rfl : opened = after.reverse ++ o' :: o :: before.reverse := by
      rw [← List.reverse_reverse opened, heq]
      simp
    have hbetween : Balanced (between (image.take k) o o') := h.course.layers.take.balanced_top
    rwa [between_take (Nat.le_of_lt (h.opened_lt (by simp)))] at hbetween
  last o ho := by
    rw [List.getLast?_reverse] at ho
    obtain ⟨outer, rfl⟩ := List.head?_eq_some_iff.1 ho
    exact h.course.layers.balanced_top

/-- The innermost open loop is the one closed by the next end that balanced bytes lead to, however
the image goes on. -/
theorem matched_iff (h : Passed image k opened closed) {more : List UInt8} {c : Nat}
    (hmore : more.take k = image.take k) (hk : k ≤ c) (hclose : more[c]? = some closeByte)
    (hgap : Balanced ((more.take c).drop k)) {o : Nat} :
    Matched more o c ↔ opened.head? = some o := by
  have hlt := (List.getElem?_eq_some_iff.1 hclose).1
  have hsplit := List.take_append_drop k (more.take c)
  rw [List.take_take, Nat.min_eq_left hk] at hsplit
  obtain ⟨closed', hcourse⟩ := (hmore ▸ h.course).append_balanced hgap
  rw [hsplit] at hcourse
  constructor
  · intro hm
    have hlength : (more.take c).length = c := by
      rw [List.length_take, Nat.min_eq_left (Nat.le_of_lt hlt)]
    -- the start of the loop is open up to its end, so some loop is open
    have hopen : o ∈ opened := by
      rw [hcourse.mem_opened_iff, hlength, unclosed_take_iff]
      exact hm.unclosed
    cases opened with
    | nil => cases hopen
    | cons o' outer =>
      rw [hm.opening_unique (hcourse.layers.matched_next hclose)]
      rfl
  · intro hhead
    obtain ⟨outer, rfl⟩ := List.head?_eq_some_iff.1 hhead
    exact hcourse.layers.matched_next hclose

end Passed

/-! ## The stack -/

/-- The addresses of the open loops from the bottom of the stack to its top, in numbers. -/
def Pending.stack (p : Pending) : List Nat :=
  p.addresses.toList.map UInt64.toNat

theorem Pending.map_peek? (p : Pending) : p.peek?.map UInt64.toNat = p.stack.getLast? := by
  simp [peek?, stack]

theorem Pending.map_oldest? (p : Pending) : p.oldest?.map UInt64.toNat = p.stack.head? := by
  simp [oldest?, stack, List.head?_eq_getElem?]

/-- What the stack of a scan holds that has come to address `k` of an image. -/
structure Pending.Holds (p : Pending) (image : List UInt8) (k : Nat) : Prop where
  /-- From bottom to top the addresses increase. -/
  increasing : p.stack.Pairwise (· < ·)
  /-- They are those of the loops opened and not closed before the address. -/
  mem_stack_iff : ∀ o, o ∈ p.stack ↔ Unclosed image k o
  /-- Their number is by how much starts of loops outnumber ends. -/
  depth_eq : (p.depth : Int) = depthAfter image k
  /-- On top is the start that the next end of an open loop belongs to, which is the one that only
  balanced bytes lead to. So it is however the image goes on. -/
  peek_iff : ∀ (more : List UInt8) (c o : Nat), more.take k = image.take k → k ≤ c →
    more[c]? = some closeByte → Balanced ((more.take c).drop k) →
      (p.peek?.map UInt64.toNat = some o ↔ Matched more o c)
  /-- At the bottom is the first of them. -/
  oldest_iff : ∀ o, p.oldest?.map UInt64.toNat = some o ↔ IsLeast {o' | Unclosed image k o'} o
  /-- The greatest depth is that behind all first parts of the bytes read. -/
  maxDepth_isGreatest : IsGreatest (depths (image.take k)) p.maxDepth
  /-- The bytes around the addresses are balanced. -/
  gaps : Gaps image k p.stack

/-- The first of some increasing numbers is the least of them. -/
theorem head?_eq_some_iff_isLeast {numbers : List Nat} (h : numbers.Pairwise (· < ·)) {n : Nat} :
    numbers.head? = some n ↔ IsLeast {n' | n' ∈ numbers} n := by
  cases numbers with
  | nil => simp [IsLeast]
  | cons first rest =>
    have hfirst : IsLeast {n' | n' ∈ first :: rest} first := by
      refine ⟨List.mem_cons_self, fun n' hn' => ?_⟩
      rcases List.mem_cons.1 hn' with rfl | hrest
      · exact Nat.le_refl _
      · exact Nat.le_of_lt ((List.pairwise_cons.1 h).1 n' hrest)
    rw [List.head?_cons, Option.some.injEq]
    constructor
    · rintro rfl
      exact hfirst
    · exact hfirst.unique

section Went

variable {σ μ : Type} {region : Readable} {w : Writable σ} {m : Monitor μ} {table : σ} {monitor : μ}
  {bytes : List UInt8} {opened : List Nat} {closed : List (Nat × Nat)} {s : Scan σ μ}

namespace Went

/-- Addresses of open loops are words. -/
theorem toNat_ofNat_opened (h : Went region w m table monitor bytes opened closed s) {o : Nat}
    (ho : o ∈ opened) : (UInt64.ofNat o).toNat = o := by
  have hlt := h.course.opened_lt o ho
  have hlength := h.length_le
  have hsize := region.size.toNat_lt_size
  exact UInt64.toNat_ofNat_of_lt' (by omega)

theorem stack_eq (h : Went region w m table monitor bytes opened closed s) :
    s.pending.stack = opened.reverse := by
  rw [Pending.stack, h.addresses_eq, List.toList_toArray, List.map_map]
  have hsame : ∀ o ∈ opened.reverse, (UInt64.toNat ∘ UInt64.ofNat) o = o :=
    fun o ho => h.toNat_ofNat_opened (List.mem_reverse.1 ho)
  rw [List.map_congr_left hsame, List.map_id']

/-- Between two visits the stack holds what it should. -/
theorem holds (h : Went region w m table monitor bytes opened closed s) {image : Bytes}
    (hr : region.Reflects image) : s.pending.Holds image.toList bytes.length := by
  have hpassed := h.passed hr
  have hstack := h.stack_eq
  have hincreasing : s.pending.stack.Pairwise (· < ·) := by
    rw [hstack, List.pairwise_reverse]
    exact h.course.pairwise_opened
  have hmem : ∀ o, o ∈ s.pending.stack ↔ Unclosed image.toList bytes.length o := by
    intro o
    rw [hstack, List.mem_reverse, hpassed.mem_opened_iff]
  refine ⟨hincreasing, hmem, ?_, ?_, ?_, ?_, hstack ▸ hpassed.gaps⟩
  · rw [hpassed.depthAfter_eq, Pending.depth, h.addresses_eq]
    simp
  · intro more c o hmore hk hclose hgap
    rw [Pending.map_peek?, hstack, List.getLast?_reverse, hpassed.matched_iff hmore hk hclose hgap]
  · intro o
    rw [Pending.map_oldest?, head?_eq_some_iff_isLeast hincreasing]
    simp only [hmem]
  · rw [h.maxDepth_eq, ← h.eq_take hr]
    exact isGreatest_maxNesting bytes

/-- The loops closed so far are counted. -/
theorem encard_matched (h : Went region w m table monitor bytes opened closed s) {image : Bytes}
    (hr : region.Reflects image) :
    {loop : Nat × Nat | Matched image.toList loop.1 loop.2 ∧ loop.2 < bytes.length}.encard =
      s.pairs.toNat := by
  have hnodup : closed.Nodup := h.course.pairwise_closed.imp fun hlt heq => by
    rw [heq] at hlt
    exact Nat.lt_irrefl _ hlt
  have hset : {loop : Nat × Nat | Matched image.toList loop.1 loop.2 ∧ loop.2 < bytes.length} =
      (closed.toFinset : Set (Nat × Nat)) := by
    ext ⟨o, c⟩
    rw [List.coe_toFinset, Set.mem_ofPred_eq, Set.mem_ofPred_eq, (h.passed hr).mem_closed_iff]
  rw [hset, Set.encard_coe_eq_coe_finsetCard, List.toFinset_card_of_nodup hnodup, h.toNat_pairs]

end Went

end Went

/-! ## Scans that have come to an address -/

/-- A scan of a region has made its first `k` visits, and they all went well. -/
structure Scan.ReachedBy {σ μ : Type} (s : Scan σ μ) (region : Readable) (w : Writable σ)
    (m : Monitor μ) (table : σ) (monitor : μ) (k : Nat) : Prop where
  /-- The table is not too small for the scan to begin. -/
  begins : ¬ w.size table / Word.size < region.size
  /-- There are so many visits to make. -/
  le_size : k ≤ region.size.toNat
  /-- The state is the one behind them. -/
  run_eq : (visitAll region w m k 0).run (.begun region m table monitor) = .ok () s

section Reached

variable {σ μ : Type} {region : Readable} {w : Writable σ} {m : Monitor μ} {table : σ} {monitor : μ}
  {k : Nat} {s : Scan σ μ}

/-- The scan goes on from there. -/
theorem Scan.ReachedBy.resolve_eq (h : s.ReachedBy region w m table monitor k) :
    resolve region w m table monitor =
      .ofResult ((do
        visitAll region w m (region.size.toNat - k) (.ofNat k)
        conclude region.size).run s) := by
  have hvisits : k + (region.size.toNat - k) = region.size.toNat := by
    have := h.le_size
    omega
  rw [resolve, if_neg h.begins, run_whole, ← hvisits, run_visitAll_add, h.run_eq, hvisits,
    EStateM.run_bind, UInt64.zero_add]
  dsimp only
  cases (visitAll region w m (region.size.toNat - k) (.ofNat k)).run s <;> rfl

/-- **The stack of open loops.** Take a scan of an image that has come to an address without
stopping. Its stack holds, from bottom to top, the increasing addresses of the loops opened and not
closed before the address, as many as the depth there. On top is the start that the next end of an
open loop belongs to, at the bottom the first of all. What is before the bottom, between neighbours,
and behind the top is balanced. The greatest depth so far and the number of loops closed are those
of the bytes read. -/
theorem scan_keeps_stack_of_open_loops {image : Bytes} (hr : region.Reflects image)
    (h : s.ReachedBy region w m table monitor k) :
    resolve region w m table monitor =
      .ofResult ((do
        Scan.visitAll region w m (region.size.toNat - k) (.ofNat k)
        Scan.conclude region.size).run s) ∧
    s.pending.Holds image.toList k ∧
    {loop : Nat × Nat | Matched image.toList loop.1 loop.2 ∧ loop.2 < k}.encard =
      s.pairs.toNat := by
  obtain ⟨bytes, opened, closed, rfl, hwent⟩ := went_of_run h.le_size h.run_eq
  exact ⟨h.resolve_eq, hwent.holds hr, hwent.encard_matched hr⟩

/-- A loop that stays open, a loop closed inside of it, and another one that stays open. -/
theorem scan_keeps_stack_of_open_loops_inside :
    let image : Bytes := #[6, 6, 7, 2, 6]
    ∃ s : Scan Bytes Unit, s.ReachedBy (.ofBytes image) .bytes .silent (Bytes.zeros 10) () 5 ∧
      s.pending.stack = [0, 4] ∧ Balanced (between image.toList 0 4) ∧
      Unclosed image.toList 5 4 ∧ s.pairs.toNat = 1 := by
  intro image
  let run := (Scan.visitAll (.ofBytes image) .bytes .silent 5 0).run
    (.begun (.ofBytes image) .silent (Bytes.zeros 10) ())
  have hends : (match run with
      | .ok _ s => some (s.pending.stack, s.pairs.toNat)
      | .error _ _ => none) = some ([0, 4], 1) := by decide +kernel
  cases hrun : run with
  | error cause s =>
    rw [hrun] at hends
    cases hends
  | ok _ s =>
    rw [hrun] at hends
    obtain ⟨hstack, hpairs⟩ := Prod.mk.inj (Option.some.inj hends)
    have hreached : s.ReachedBy (.ofBytes image) .bytes .silent (Bytes.zeros 10) () 5 :=
      ⟨by decide, by decide, hrun⟩
    have hreflects := Readable.reflects_ofBytes image
    obtain ⟨-, hholds, -⟩ := scan_keeps_stack_of_open_loops hreflects hreached
    refine ⟨s, hreached, hstack, hholds.gaps.inner [] 0 4 [] hstack, ?_, hpairs⟩
    rw [← hholds.mem_stack_iff, hstack]
    decide

end Reached

end LoopTable
