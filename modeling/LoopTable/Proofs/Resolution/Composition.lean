import LoopTable.Proofs.Resolution.Agreement
import LoopTable.Proofs.Resolution.BranchTable

/-!
# Tables of composed images

What becomes of the tables of images when one image is put behind another (`Concatenated`) or when a
loop is put around an image (`Enclosed`). The table of each part is found in that of the whole, with
its destinations moved by the number of instructions before the part (`Relocated`), since a part
calls for the same words wherever it stands (`Slot.inside`). What a scan counts follows as well,
from the counts of the parts (`Balanced.ofImage_append`, `ofImage_loop`).

Both fail only when an end of a loop is moved too far for a word (`exists_unencodable`).
-/

namespace LoopTable

/-! ## Counts -/

namespace Statistics

/-- What is counted in two images, one behind the other. -/
def followedBy (first second : Statistics) : Statistics where
  instructions := first.instructions + second.instructions
  pairs := first.pairs + second.pairs
  maxDepth := max first.maxDepth second.maxDepth

/-- What is counted in an image with a loop around it. -/
def enclosed (body : Statistics) : Statistics where
  instructions := body.instructions + 2
  pairs := body.pairs + 1
  maxDepth := body.maxDepth + 1

end Statistics

theorem Balanced.ofImage_append {first : List UInt8} (h : Balanced first) (second : List UInt8) :
    Statistics.ofImage (first ++ second) =
      (Statistics.ofImage first).followedBy (.ofImage second) := by
  simp only [Statistics.ofImage, Statistics.followedBy, List.length_append, List.count_append,
    UInt64.ofNat_add, h.maxNesting_append]

theorem ofImage_loop (body : List UInt8) :
    Statistics.ofImage (openByte :: body ++ [closeByte]) = (Statistics.ofImage body).enclosed := by
  have hcount : (openByte :: body ++ [closeByte]).count openByte = body.count openByte + 1 := by
    simp [openByte, closeByte]
  have hlength : (openByte :: body ++ [closeByte]).length = body.length + 2 := by simp
  rw [Statistics.ofImage, Statistics.ofImage, Statistics.enclosed, hcount, hlength,
    maxNesting_loop, UInt64.ofNat_add, UInt64.ofNat_add]
  rfl

/-- Some scan of an image succeeds, and has counted this. -/
inductive Counted (image : Bytes) (statistics : Statistics) : Prop
  | mk {σ μ : Type} (w : Writable σ) (m : Monitor μ) (table : σ) (monitor : μ) :
      (resolve (.ofBytes image) w m table monitor).result = .ok statistics →
        Counted image statistics

theorem Counted.eq_ofImage {image : Bytes} {statistics : Statistics}
    (h : Counted image statistics) (himage : image.size < UInt64.size) :
    statistics = .ofImage image.toList := by
  obtain ⟨w, m, table, monitor, hok⟩ := h
  exact statistics_eq_ofImage himage hok

/-- Scans of an image with a table can succeed, and all that do have counted the image. -/
theorem counted_iff {image table : Bytes} (himage : 2 * image.size < UInt64.size)
    (h : branchTable image = .ok table) {statistics : Statistics} :
    Counted image statistics ↔ statistics = .ofImage image.toList := by
  have hsize : image.size < UInt64.size := by omega
  constructor
  · exact fun hcounted => hcounted.eq_ofImage hsize
  · rintro rfl
    obtain ⟨hbalanced, hnear, -⟩ := (branchTable_eq_ok_iff himage).1 h
    obtain ⟨statistics, hok⟩ := (tableScan_ok_iff himage).2 ⟨hbalanced, hnear⟩
    have hcounted : Counted image statistics := .mk .bytes .silent _ () hok
    exact hcounted.eq_ofImage hsize ▸ hcounted

/-! ## Tables -/

/-- A table with an amount added to the words of all loop instructions of an image, and to no other
words, which are zero. -/
structure Relocated (image : Bytes) (amount : Nat) (before after : Bytes) : Prop where
  /-- There are as many words. -/
  size_eq : after.size = before.size
  /-- The words of loop instructions are moved. -/
  loops : ∀ a, image[a]? = some openByte ∨ image[a]? = some closeByte →
    ∃ v, before.words a = some v ∧ after.words a = some (v + amount)
  /-- The other words stay zero. -/
  inert : ∀ a byte, image[a]? = some byte → IsInert byte →
    before.words a = some 0 ∧ after.words a = some 0

/-- The table of an image that stands behind others is its own table with the destinations moved. -/
theorem IsTable.relocated {image before after : Bytes} {base : Nat}
    (hbalanced : Balanced image.toList) (himage : image.size < UInt64.size)
    (h : IsTable image.toList 0 before) (h' : IsTable image.toList base after) :
    Relocated image base before after := by
  obtain ⟨closed, hcourse⟩ := hbalanced.exists_course
  have hlength : image.toList.length < UInt64.size := himage
  refine ⟨h'.size_eq.trans h.size_eq.symm, fun a ha => ?_, fun a byte hbyte hinert => ?_⟩
  · rw [← Array.getElem?_toList] at ha
    rcases ha with ho | hc
    · obtain ⟨c, hm⟩ := hcourse.exists_closing ho
      refine ⟨c + 1, ?_, ?_⟩
      · rw [h.words_eq hlength (.start hm), Nat.zero_add]
      · rw [h'.words_eq hlength (.start hm), Nat.add_comm]
    · obtain ⟨o, hm⟩ := hcourse.exists_opening hc
      refine ⟨o, ?_, ?_⟩
      · rw [h.words_eq hlength (.stop hm), Nat.zero_add]
      · rw [h'.words_eq hlength (.stop hm), Nat.add_comm]
  · rw [← Array.getElem?_toList] at hbyte
    exact ⟨h.words_eq hlength (.inert hbyte hinert), h'.words_eq hlength (.inert hbyte hinert)⟩

namespace Bytes

/-- The two bytes of a word, low byte first. -/
def ofWord (v : Nat) : Bytes :=
  #[UInt8.ofNat (v % 256), UInt8.ofNat (v / 256)]

/-- The part of a table at one address is the word there. -/
theorem HoldsWord.extract_eq_ofWord {table : Bytes} {a v : Nat} (h : table.HoldsWord a v)
    (hsize : 2 * (a + 1) ≤ table.size) :
    table.extract (2 * a) (2 * (a + 1)) = ofWord v := by
  refine ext_words (n := 1) ?_ rfl fun i hi => ?_
  · rw [Array.size_extract]
    omega
  · obtain rfl : i = 0 := by omega
    exact ⟨v, h.extract hi hsize, h.lt, rfl, rfl⟩

end Bytes

namespace IsTable

variable {base : Nat} {table : Bytes}

/-- The table of two images is that of the first and behind it that of the second. -/
theorem exists_append {first second : List UInt8} (h : IsTable (first ++ second) base table) :
    ∃ start rest, table = start ++ rest ∧ IsTable first base start ∧
      IsTable second (base + first.length) rest := by
  have hsize := h.size_eq
  rw [List.length_append] at hsize
  refine ⟨_, _, ?_, h.extract_left, h.extract_right⟩
  rw [Array.extract_append_extract, Nat.zero_min, Nat.max_eq_right (by omega),
    Array.extract_eq_self_of_le (by omega)]

/-- The table of a loop is that of its body between the words of the loop. -/
theorem exists_loop {body : List UInt8} (hbody : Balanced body)
    (h : IsTable (openByte :: body ++ [closeByte]) base table) :
    ∃ inside, table = .ofWord (base + (body.length + 2)) ++ inside ++ .ofWord base ∧
      IsTable body (base + 1) inside := by
  have hmatched := hbody.matched_loop
  have hsize : table.size = 2 * (body.length + 2) := by
    rw [h.size_eq, List.length_append, List.length_cons, List.length_singleton]
  have hstart : table.extract 0 2 = Bytes.ofWord (base + (body.length + 2)) :=
    (h.holds _ _ (.start hmatched)).extract_eq_ofWord (by omega)
  have hend : table.extract (2 * (body.length + 1)) (2 * (body.length + 2)) = Bytes.ofWord base :=
    (h.holds _ _ (.stop hmatched)).extract_eq_ofWord (by omega)
  have hinside : IsTable body (base + 1) (table.extract 2 (2 * (1 + body.length))) :=
    @extract body base table [openByte] [closeByte] h
  rw [Nat.add_comm 1] at hinside
  refine ⟨_, ?_, hinside⟩
  rw [← hstart, ← hend, Array.extract_append_extract, Nat.zero_min, Nat.max_eq_right (by omega),
    Array.extract_append_extract, Nat.zero_min, Nat.max_eq_right (by omega),
    Array.extract_eq_self_of_le (by omega)]

end IsTable

/-! ## Ends too far -/

/-- A balanced image with an end of a loop too far for a word has no table for that reason. -/
theorem exists_unencodable {image : Bytes} (himage : 2 * image.size < UInt64.size)
    (hbalanced : Balanced image.toList) {c : Nat} (hclose : image[c]? = some closeByte)
    (hfar : 65535 ≤ c) : ∃ a v, branchTable image = .error (.unencodable a v) := by
  have hverdict := (ending_tableScan himage).verdict
  rw [← Array.getElem?_toList] at hclose
  obtain ⟨closed, hcourse⟩ := hbalanced.exists_course
  obtain ⟨e, hfirst⟩ := Blocks.exists_first ⟨hclose, Or.inr hfar⟩
  obtain ⟨o, hm⟩ := hcourse.exists_opening hfirst.blocks.1
  rcases Nat.lt_or_ge 65535 o with hstart | hstart
  · have hresult := (hverdict.farStart e o hfirst hm hstart).1
    exact ⟨_, _, by rw [branchTable_eq, hresult]; rfl⟩
  · have hresult := (hverdict.farEnd e o hfirst hm hstart).1
    exact ⟨_, _, by rw [branchTable_eq, hresult]; rfl⟩

/-! ## One image behind another -/

/-- What becomes of the tables of two images when the second is put behind the first. -/
structure Concatenated (first second firstTable secondTable : Bytes) : Prop where
  /-- If all loops end early enough, the tables are put one behind the other, the second one
  moved. -/
  table : (∀ c, (first ++ second)[c]? = some closeByte → c < 0xFFFF) →
    ∃ moved, branchTable (first ++ second) = .ok (firstTable ++ moved) ∧
      Relocated second first.size secondTable moved
  /-- What is counted is the sum, and of the depths the maximum. -/
  counts : (∀ c, (first ++ second)[c]? = some closeByte → c < 0xFFFF) →
    ∀ s₁ s₂ s, Counted first s₁ → Counted second s₂ →
      (Counted (first ++ second) s ↔ s = s₁.followedBy s₂)
  /-- If a loop ends too late, a destination does not fit into a word. -/
  far : ∀ c, (first ++ second)[c]? = some closeByte → 0xFFFF ≤ c →
    ∃ a v, branchTable (first ++ second) = .error (.unencodable a v)

theorem concatenated_of_branchTable {first second firstTable secondTable : Bytes}
    (hsize : 2 * (first.size + second.size) < UInt64.size)
    (hfirst : branchTable first = .ok firstTable)
    (hsecond : branchTable second = .ok secondTable) :
    Concatenated first second firstTable secondTable := by
  obtain ⟨hbalanced₁, -, htable₁⟩ := (branchTable_eq_ok_iff (by omega)).1 hfirst
  obtain ⟨hbalanced₂, -, htable₂⟩ := (branchTable_eq_ok_iff (by omega)).1 hsecond
  have hwhole : 2 * (first ++ second).size < UInt64.size := by
    rw [Array.size_append]
    exact hsize
  have hbalanced : Balanced (first ++ second).toList := by
    rw [Array.toList_append]
    exact .append hbalanced₁ hbalanced₂
  refine ⟨fun hnear => ?_, fun hnear s₁ s₂ s hs₁ hs₂ => ?_,
    fun c hclose hfar => exists_unencodable hwhole hbalanced hclose hfar⟩
  · obtain ⟨table, hok, htable⟩ := exists_branchTable hwhole hbalanced hnear
    rw [Array.toList_append] at htable
    obtain ⟨start, moved, rfl, hstart, hmoved⟩ := htable.exists_append
    rw [Nat.zero_add, Array.length_toList] at hmoved
    rw [htable₁.unique hbalanced₁ hstart]
    exact ⟨moved, hok, htable₂.relocated hbalanced₂ (by omega) hmoved⟩
  · obtain ⟨table, hok, -⟩ := exists_branchTable hwhole hbalanced hnear
    rw [counted_iff hwhole hok, Array.toList_append, hbalanced₁.ofImage_append,
      hs₁.eq_ofImage (by omega), hs₂.eq_ofImage (by omega)]

/-! ## A loop around an image -/

/-- What becomes of the table of an image when a loop is put around it. -/
structure Enclosed (body bodyTable : Bytes) : Prop where
  /-- If the end of the loop is early enough, the words of the loop are put around the table, which
  is moved by one. -/
  table : body.size ≤ 0xFFFD →
    ∃ moved, branchTable (#[openByte] ++ body ++ #[closeByte]) =
        .ok (.ofWord (body.size + 2) ++ moved ++ .ofWord 0) ∧
      Relocated body 1 bodyTable moved
  /-- There is one loop more, and all others are one deeper. -/
  counts : body.size ≤ 0xFFFD → ∀ s₁ s, Counted body s₁ →
    (Counted (#[openByte] ++ body ++ #[closeByte]) s ↔ s = s₁.enclosed)
  /-- If the end of the loop is too late, a destination does not fit into a word. -/
  far : 0xFFFD < body.size →
    ∃ a v, branchTable (#[openByte] ++ body ++ #[closeByte]) = .error (.unencodable a v)

theorem enclosed_of_branchTable {body bodyTable : Bytes}
    (hsize : 2 * (body.size + 2) < UInt64.size) (h : branchTable body = .ok bodyTable) :
    Enclosed body bodyTable := by
  obtain ⟨hbody, -, hbodyTable⟩ := (branchTable_eq_ok_iff (by omega)).1 h
  have hlist : (#[openByte] ++ body ++ #[closeByte]).toList =
      openByte :: body.toList ++ [closeByte] := by simp
  have hlength : (#[openByte] ++ body ++ #[closeByte]).size = body.size + 2 := by
    simp only [Array.size_append, List.size_toArray, List.length_singleton]
    omega
  have hwhole : 2 * (#[openByte] ++ body ++ #[closeByte]).size < UInt64.size := by
    rw [hlength]
    exact hsize
  have hbalanced : Balanced (#[openByte] ++ body ++ #[closeByte]).toList := by
    rw [hlist]
    exact .loop hbody
  have hnear : body.size ≤ 0xFFFD →
      ∀ c, (#[openByte] ++ body ++ #[closeByte])[c]? = some closeByte → c < 0xFFFF := by
    intro hsmall c hclose
    have hc := (Array.getElem?_eq_some_iff.1 hclose).1
    omega
  refine ⟨fun hsmall => ?_, fun hsmall s₁ s hs₁ => ?_, fun hfar => ?_⟩
  · obtain ⟨table, hok, htable⟩ := exists_branchTable hwhole hbalanced (hnear hsmall)
    rw [hlist] at htable
    obtain ⟨moved, rfl, hmoved⟩ := htable.exists_loop hbody
    rw [Nat.zero_add, Array.length_toList] at hok
    exact ⟨moved, hok, hbodyTable.relocated hbody (by omega) hmoved⟩
  · obtain ⟨table, hok, -⟩ := exists_branchTable hwhole hbalanced (hnear hsmall)
    rw [counted_iff hwhole hok, hlist, ofImage_loop, hs₁.eq_ofImage (by omega)]
  · refine exists_unencodable hwhole hbalanced (c := body.size + 1) ?_ (by omega)
    rw [← Array.getElem?_toList, hlist]
    exact hbody.matched_loop.closes

/-! ## Composition -/

/-- **Composition.** The table of two images, one behind the other, is put together from their
tables, and so is the table of an image with a loop around it, unless a destination becomes too
far. -/
theorem branchTable_composes :
    (∀ {first second firstTable secondTable : Bytes},
      2 * (first.size + second.size) < UInt64.size → branchTable first = .ok firstTable →
        branchTable second = .ok secondTable →
          Concatenated first second firstTable secondTable) ∧
    ∀ {body bodyTable : Bytes}, 2 * (body.size + 2) < UInt64.size →
      branchTable body = .ok bodyTable → Enclosed body bodyTable :=
  ⟨concatenated_of_branchTable, enclosed_of_branchTable⟩

/-- A loop with a loop behind it, and a loop inside a loop. -/
theorem branchTable_composes_loops :
    branchTable #[6, 7] = .ok #[2, 0, 0, 0] ∧
      branchTable #[6, 2, 7] = .ok #[3, 0, 0, 0, 0, 0] ∧
      (∃ moved, branchTable #[6, 7, 6, 2, 7] = .ok (#[2, 0, 0, 0] ++ moved) ∧
        Relocated #[6, 2, 7] 2 #[3, 0, 0, 0, 0, 0] moved) ∧
      (Counted #[6, 7, 6, 7] ⟨4, 2, 1⟩ ∧ Counted #[6, 6, 7, 7] ⟨4, 2, 2⟩) ∧
      ∃ moved, branchTable #[6, 6, 7, 7] = .ok (.ofWord 4 ++ moved ++ .ofWord 0) ∧
        Relocated #[6, 7] 1 #[2, 0, 0, 0] moved := by
  have hfirst : branchTable #[6, 7] = .ok #[2, 0, 0, 0] := rfl
  have hsecond : branchTable #[6, 2, 7] = .ok #[3, 0, 0, 0, 0, 0] := rfl
  have hcounted : Counted #[6, 7] ⟨2, 1, 1⟩ := .mk .bytes .silent (.zeros 4) () rfl
  have hmixed := branchTable_composes.1 (by decide) hfirst hsecond
  have htwice := branchTable_composes.1 (by decide) hfirst hfirst
  have henclosed := branchTable_composes.2 (by decide) hfirst
  have hnear : ∀ {image : Bytes}, image.size ≤ 5 →
      ∀ c, image[c]? = some closeByte → c < 0xFFFF := by
    intro image hsize c hclose
    have hc := (Array.getElem?_eq_some_iff.1 hclose).1
    omega
  exact ⟨hfirst, hsecond, hmixed.table (hnear (by decide)),
    ⟨(htwice.counts (hnear (by decide)) _ _ _ hcounted hcounted).2 rfl,
      (henclosed.counts (by decide) _ _ hcounted).2 rfl⟩, henclosed.table (by decide)⟩

end LoopTable
