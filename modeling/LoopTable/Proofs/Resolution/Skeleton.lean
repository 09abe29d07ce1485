import LoopTable.Proofs.Resolution.BranchTable

/-!
# What a table tells about an image

A scan tells loop instructions from inert bytes and no inert byte from another. So images with the
same loop instructions at the same addresses cannot be told apart by scanning them, whatever is
observed (`SameLoops.resolve_eq`). In turn the table of an image tells where its loop instructions
are (`IsTable.words_gt_iff`), so that two images have the same table exactly if they have the same
loop instructions (`table_tells_loops`).

The first part goes through `Readable.outline`, in which all inert bytes are read as zero.
-/

namespace LoopTable

/-- Two images of one size with the same loop instructions at the same addresses. -/
structure SameLoops (first second : Bytes) : Prop where
  /-- They are of one size. -/
  size_eq : first.size = second.size
  /-- Loops start at the same addresses. -/
  opens_iff : ∀ a : Nat, first[a]? = some openByte ↔ second[a]? = some openByte
  /-- Loops end at the same addresses. -/
  closes_iff : ∀ a : Nat, first[a]? = some closeByte ↔ second[a]? = some closeByte

/-! ## Inert bytes are all alike -/

/-- A byte as far as a scan tells it from others. -/
def outlined (byte : UInt8) : UInt8 :=
  if byte = openByte then openByte else if byte = closeByte then closeByte else 0

/-- Loop instructions stay recognizable. -/
theorem outlined_eq_iff {byte loop : UInt8} (h : loop = openByte ∨ loop = closeByte) :
    outlined byte = loop ↔ byte = loop := by
  by_cases hopen : byte = openByte
  · rw [outlined, if_pos hopen, hopen]
  · by_cases hclose : byte = closeByte
    · rw [outlined, if_neg hopen, if_pos hclose, hclose]
    · rw [outlined, if_neg hopen, if_neg hclose]
      rcases h with rfl | rfl
      · exact iff_of_false (by decide) hopen
      · exact iff_of_false (by decide) hclose

/-- The same region with every inert byte read as zero. -/
def Readable.outline (region : Readable) : Readable where
  size := region.size
  read := fun offset => (region.read offset).map outlined

namespace Scan

variable {σ μ : Type} (region : Readable) (w : Writable σ) (m : Monitor μ)

/-- A visit does not tell one inert byte from another. -/
theorem visit_outline (address : UInt64) :
    visit region.outline w m address = visit region w m address := by
  refine funext fun s => ?_
  show (visit region.outline w m address).run s = (visit region w m address).run s
  rw [run_visit, run_visit]
  cases hread : region.read address with
  | error fault => simp only [Readable.outline, hread, Except.map]
  | ok byte =>
    simp only [Readable.outline, hread, Except.map, outlined_eq_iff (.inl rfl),
      outlined_eq_iff (.inr rfl)]

theorem visitAll_outline (n : Nat) (address : UInt64) :
    visitAll region.outline w m n address = visitAll region w m n address := by
  induction n generalizing address with
  | zero => rfl
  | succ n ih => rw [visitAll, visitAll, visit_outline, ih]

theorem whole_outline : whole region.outline w m = whole region w m := by
  rw [whole, whole]
  simp only [visitAll_outline]
  rfl

end Scan

section Resolve

variable {σ μ : Type} (w : Writable σ) (m : Monitor μ) (table : σ) (monitor : μ)

/-- A scan does not tell inert bytes from zeros. -/
theorem resolve_outline (region : Readable) :
    resolve region.outline w m table monitor = resolve region w m table monitor := by
  rw [resolve, resolve, Scan.whole_outline]
  rfl

variable {first second : Bytes}

theorem SameLoops.outline_eq (h : SameLoops first second) :
    (Readable.ofBytes first).outline = (Readable.ofBytes second).outline := by
  have hread : ∀ offset, (first.read offset).map outlined = (second.read offset).map outlined := by
    intro offset
    rcases Nat.lt_or_ge offset.toNat first.size with hlt | hge
    · have hfirst := Array.getElem?_eq_getElem hlt
      have hsecond := Array.getElem?_eq_getElem (h.size_eq ▸ hlt)
      have hopen := h.opens_iff offset.toNat
      have hclose := h.closes_iff offset.toNat
      rw [hfirst, hsecond, Option.some_inj, Option.some_inj] at hopen hclose
      rw [Bytes.read_eq_ok_iff.2 hfirst, Bytes.read_eq_ok_iff.2 hsecond]
      simp only [Except.map, outlined, hopen, hclose]
    · have hfirst : first[offset.toNat]? = none := Array.getElem?_eq_none hge
      have hsecond : second[offset.toNat]? = none := Array.getElem?_eq_none (h.size_eq ▸ hge)
      rw [Bytes.read, Bytes.read, hfirst, hsecond, h.size_eq]
  show Readable.mk (.ofNat first.size) _ = Readable.mk (.ofNat second.size) _
  rw [h.size_eq]
  exact congrArg _ (funext hread)

/-- Scans of images with the same loop instructions do the same. -/
theorem SameLoops.resolve_eq (h : SameLoops first second) :
    resolve (.ofBytes first) w m table monitor = resolve (.ofBytes second) w m table monitor := by
  rw [← resolve_outline, h.outline_eq, resolve_outline]

end Resolve

/-! ## Loop instructions found in a table -/

namespace IsTable

variable {image : List UInt8} {table : Bytes}

/-- The starts of loops are where the word points forward. -/
theorem words_gt_iff (h : IsTable image 0 table) (himage : image.length < UInt64.size)
    (hbalanced : Balanced image) {a v : Nat} :
    table.words a = some v ∧ a < v ↔ ∃ c, Matched image a c ∧ v = c + 1 := by
  constructor
  · rintro ⟨hword, hlt⟩
    have ha : a < image.length := by
      refine Nat.lt_of_not_le fun hge => ?_
      have hv := Bytes.lt_of_words_eq hword
      have hsize : 65536 ≤ UInt64.size := by decide
      rw [Bytes.words_eq_none (by omega) (by rw [h.size_eq]; omega)] at hword
      cases hword
    obtain ⟨v', hslot⟩ := hbalanced.exists_slot 0 ha
    obtain rfl : v = v' := Option.some.inj (hword.symm.trans (h.words_eq himage hslot))
    cases hslot with
    | start hm => exact ⟨_, hm, Nat.zero_add _⟩
    | stop hm =>
      have := hm.lt
      omega
    | inert => exact absurd hlt (Nat.not_lt_zero a)
  · rintro ⟨c, hm, rfl⟩
    have hword := h.words_eq himage (.start hm)
    rw [Nat.zero_add] at hword
    exact ⟨hword, Nat.lt_succ_of_lt hm.lt⟩

end IsTable

section Table

variable {image first second table : Bytes}

/-- The starts of the loops of an image are the addresses whose word points forward, and the ends
are the addresses before the ones pointed at. -/
theorem loops_of_branchTable (himage : image.size < UInt64.size)
    (h : branchTable image = .ok table) :
    (∀ a, image[a]? = some openByte ↔ ∃ v, table.words a = some v ∧ a < v) ∧
      ∀ c, image[c]? = some closeByte ↔ ∃ a v, (table.words a = some v ∧ a < v) ∧ c + 1 = v := by
  obtain ⟨hbalanced, -, htable⟩ :=
    (branchTable_eq_ok_iff (size_lt_of_branchTable himage h)).1 h
  obtain ⟨closed, hcourse⟩ := hbalanced.exists_course
  simp only [htable.words_gt_iff (Array.length_toList ▸ himage) hbalanced, ← Array.getElem?_toList]
  constructor
  · intro a
    constructor
    · intro ho
      obtain ⟨c, hm⟩ := hcourse.exists_closing ho
      exact ⟨_, c, hm, rfl⟩
    · rintro ⟨_, c, hm, -⟩
      exact hm.opens
  · intro c
    constructor
    · intro hc
      obtain ⟨o, hm⟩ := hcourse.exists_opening hc
      exact ⟨o, _, ⟨c, hm, rfl⟩, rfl⟩
    · rintro ⟨a, _, ⟨c', hm, rfl⟩, heq⟩
      obtain rfl := Nat.succ.inj heq
      exact hm.closes

/-- Images with the same table have the same loop instructions. -/
theorem sameLoops_of_branchTable (hfirst : first.size < UInt64.size)
    (hsecond : second.size < UInt64.size) (h : branchTable first = .ok table)
    (h' : branchTable second = .ok table) : SameLoops first second := by
  obtain ⟨hopens, hcloses⟩ := loops_of_branchTable hfirst h
  obtain ⟨hopens', hcloses'⟩ := loops_of_branchTable hsecond h'
  have hsize := size_of_branchTable hfirst h
  have hsize' := size_of_branchTable hsecond h'
  exact ⟨by omega, fun a => (hopens a).trans (hopens' a).symm,
    fun c => (hcloses c).trans (hcloses' c).symm⟩

/-- **Skeleton.** Scans of images with the same loop instructions do the same, whatever they write
to and whoever watches them: they give the same result, leave the same table and monitor, and make
the same calls and log the same records in the same order. In turn the table of an image tells where
its loops start and where they end, so the images with this table are those with these loops. -/
theorem table_tells_loops :
    (SameLoops first second →
      ∀ {σ μ : Type} (w : Writable σ) (m : Monitor μ) (held : σ) (monitor : μ),
        resolve (.ofBytes first) w m held monitor = resolve (.ofBytes second) w m held monitor) ∧
    (first.size < UInt64.size → second.size < UInt64.size → branchTable first = .ok table →
      (branchTable second = .ok table ↔ SameLoops first second) ∧
      (∀ a, first[a]? = some openByte ↔ ∃ v, table.words a = some v ∧ a < v) ∧
      ∀ c, first[c]? = some closeByte ↔
        ∃ a v, (table.words a = some v ∧ a < v) ∧ c + 1 = v) := by
  refine ⟨fun h _ _ w m held monitor => h.resolve_eq w m held monitor,
    fun hfirst hsecond h => ⟨⟨fun h' => ?_, fun hsame => ?_⟩, loops_of_branchTable hfirst h⟩⟩
  · exact sameLoops_of_branchTable hfirst hsecond h h'
  · rw [← h, branchTable, branchTable, ← hsame.resolve_eq, hsame.size_eq]

/-- A byte inside a loop shows neither in what a scan does nor in the table. -/
theorem table_tells_loops_inert :
    SameLoops #[6, 0, 7] #[6, 9, 7] ∧
      (resolve (.ofBytes #[6, 0, 7]) .bytes .task (.zeros 6) (.new 0, .empty) =
        resolve (.ofBytes #[6, 9, 7]) .bytes .task (.zeros 6) (.new 0, .empty)) ∧
      branchTable #[6, 0, 7] = .ok #[3, 0, 0, 0, 0, 0] ∧
      branchTable #[6, 9, 7] = .ok #[3, 0, 0, 0, 0, 0] ∧
      ∃ v, Bytes.words #[3, 0, 0, 0, 0, 0] 0 = some v ∧ 0 < v := by
  have hfirst : branchTable #[6, 0, 7] = .ok #[3, 0, 0, 0, 0, 0] := rfl
  have hsame : SameLoops #[6, 0, 7] #[6, 9, 7] := by
    refine ⟨rfl, fun a => ?_, fun a => ?_⟩
    all_goals match a with
      | 0 | 1 | 2 => decide
      | _ + 3 => simp
  obtain ⟨hscan, htable⟩ := @table_tells_loops #[6, 0, 7] #[6, 9, 7] #[3, 0, 0, 0, 0, 0]
  obtain ⟨hsecond, hopens, -⟩ := htable (by decide) (by decide) hfirst
  exact ⟨hsame, hscan hsame .bytes .task _ _, hfirst, hsecond.2 hsame, (hopens 0).1 rfl⟩

end Table

end LoopTable
