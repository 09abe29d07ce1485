import LoopTable.Proofs.Nesting.Measure
import LoopTable.Proofs.Resolution.Coverage

/-!
# What a scan counts

A scan counts the loops it has resolved and keeps the greatest number of open loops. Between two
visits both counts are those of the bytes read so far (`Went.pairs_eq`, `Went.maxDepth_eq`), so the
statistics of a scan that succeeds say of the bytes scanned what `Statistics.ofImage` says without
any scan (`exists_went_of_ok`, `Readable.Reflects.statistics_eq`).

`Statistics.Measures` says without any running count what the numbers mean: counts over all bytes,
and a maximum over all their first parts. The numbers of a scan that succeeds are such measures
(`statistics_measure_scanned`).
-/

namespace LoopTable

/-- The number of instructions of an image, the number of its loops, and the greatest number of them
open at one time. -/
def Statistics.ofImage (image : List UInt8) : Statistics where
  instructions := .ofNat image.length
  pairs := .ofNat (image.count openByte)
  maxDepth := maxNesting image

section Went

variable {σ μ : Type} {region : Readable} {w : Writable σ} {m : Monitor μ} {table : σ} {monitor : μ}
  {bytes : List UInt8} {opened : List Nat} {closed : List (Nat × Nat)} {s : Scan σ μ}

/-- As many loops have been counted as were closed. -/
theorem Went.pairs_eq (h : Went region w m table monitor bytes opened closed s) :
    s.pairs = .ofNat closed.length := by
  induction h with
  | start => rfl
  | inert _ _ _ _ _ ih | opened _ _ _ _ ih => exact ih
  | closed _ _ _ _ hsettled ih =>
    cases hsettled with
    | done =>
      rw [List.length_append, List.length_singleton, ← ofNat_succ, ← ih]
      rfl

/-- The count of loops does not wrap, since there are no more loops than bytes. -/
theorem Went.toNat_pairs (h : Went region w m table monitor bytes opened closed s) :
    s.pairs.toNat = closed.length := by
  have hclosed : closed.length ≤ bytes.length := by
    rw [h.course.length_closed]
    exact List.count_le_length
  have hlength := h.length_le
  have hsize := region.size.toNat_lt_size
  rw [h.pairs_eq]
  exact UInt64.toNat_ofNat_of_lt' (by omega)

/-- The stack remembers the greatest depth among the bytes read. -/
theorem Went.maxDepth_eq (h : Went region w m table monitor bytes opened closed s) :
    s.pending.maxDepth = maxNesting bytes := by
  induction h with
  | start => rfl
  | inert _ _ _ _ hb ih =>
    rw [maxNesting_snoc_of_le (Int.le_of_eq (surplus_inert hb))]
    exact ih
  | @opened bytes opened closed s hwent _ _ _ ih =>
    have hdepth : s.pending.depth = opened.length := by
      rw [Pending.depth, hwent.addresses_eq]
      simp
    rw [Scan.pending_opened, Pending.maxDepth_push, Scan.pending_asked, ih, hdepth, maxNesting_snoc,
      surplus_append, hwent.course.surplus_eq, surplus_open]
    rfl
  | closed _ _ _ _ hsettled ih =>
    rw [maxNesting_snoc_of_le (by decide)]
    cases hsettled with
    | done => exact ih

/-- A scan that succeeds has read the whole region and closed every loop, and it has counted the
bytes that it was given. -/
theorem exists_went_of_ok {statistics : Statistics}
    (hok : (resolve region w m table monitor).result = .ok statistics) :
    ∃ bytes closed s, Went region w m table monitor bytes [] closed s ∧
      bytes.length = region.size.toNat ∧ statistics = .ofImage bytes ∧
      (resolve region w m table monitor).scanned region = bytes ∧
      (resolve region w m table monitor).puts = closed.flatMap pairPuts := by
  have hended := ended_resolve region w m table monitor
  generalize resolve region w m table monitor = outcome at hended hok ⊢
  cases hended with
  | tooSmall | stopped | leftOpen => cases hok
  | @finished bytes closed s _ hwent hlength =>
    have hcourse := hwent.course
    have hpairs : closed.length = bytes.count openByte := by
      rw [hcourse.length_closed, hcourse.balanced.count_eq]
    cases hok
    refine ⟨bytes, closed, s, hwent, hlength, ?_, ?_, ?_⟩
    · rw [Statistics.ofImage, hwent.pairs_eq, hwent.maxDepth_eq, hpairs, hlength,
        UInt64.ofNat_toNat]
    · rw [Outcome.scanned_ofResult_ok, Scan.reads_logged, hwent.answers_eq]
    · rw [Outcome.puts_ofResult_ok, Scan.puts_logged, hwent.puts_eq]

/-- **Statistics.** Whatever the table and the monitor are, a scan that succeeds has counted the
bytes that it was told to scan. -/
theorem Readable.Reflects.statistics_eq {image : Bytes} (hr : region.Reflects image)
    {statistics : Statistics}
    (hok : (resolve region w m table monitor).result = .ok statistics) :
    statistics = .ofImage (image.toList.take region.size.toNat) := by
  obtain ⟨bytes, closed, s, hwent, hlength, hstatistics, -⟩ := exists_went_of_ok hok
  rw [hstatistics, ← hlength, ← hwent.eq_take hr]

/-- A scan of an image in memory that succeeds has counted the image. -/
theorem statistics_eq_ofImage {image : Bytes} (himage : image.size < UInt64.size)
    {statistics : Statistics}
    (hok : (resolve (.ofBytes image) w m table monitor).result = .ok statistics) :
    statistics = .ofImage image.toList := by
  have hsize : (Readable.ofBytes image).size.toNat = image.size :=
    UInt64.toNat_ofNat_of_lt' himage
  rw [(Readable.reflects_ofBytes image).statistics_eq hok, hsize, ← Array.length_toList,
    List.take_length]

end Went

/-! ## What the counts mean -/

/-- The numbers of a scan are what there is to count in some bytes. -/
structure Statistics.Measures (statistics : Statistics) (bytes : List UInt8) : Prop where
  /-- There is an instruction for each byte. -/
  instructions_eq : statistics.instructions.toNat = bytes.length
  /-- There is a loop for each start of one. -/
  pairs_eq_opens : statistics.pairs.toNat = bytes.count openByte
  /-- There is a loop for each end of one. -/
  pairs_eq_closes : statistics.pairs.toNat = bytes.count closeByte
  /-- The greatest depth is that behind all first parts of the bytes: by how much the starts outnumber
  the ends at most. -/
  maxDepth_isGreatest : IsGreatest (depths bytes) statistics.maxDepth

/-- The numbers of a balanced image are its measures as long as they fit. -/
theorem Balanced.measures_ofImage {image : List UInt8} (h : Balanced image)
    (hlength : image.length < UInt64.size) : (Statistics.ofImage image).Measures image := by
  have hpairs : (Statistics.ofImage image).pairs.toNat = image.count openByte :=
    UInt64.toNat_ofNat_of_lt' (Nat.lt_of_le_of_lt List.count_le_length hlength)
  exact ⟨UInt64.toNat_ofNat_of_lt' hlength, hpairs, hpairs.trans h.count_eq,
    isGreatest_maxNesting image⟩

theorem length_flatMap_pairPuts (closed : List (Nat × Nat)) :
    (closed.flatMap pairPuts).length = 2 * closed.length := by
  induction closed with
  | nil => rfl
  | cons pair closed ih =>
    rw [List.flatMap_cons, List.length_append, ih, List.length_cons, pairPuts, List.length_cons,
      List.length_singleton]
    omega

section Measures

variable {σ μ : Type} {region : Readable} {w : Writable σ} {m : Monitor μ} {table : σ} {monitor : μ}

/-- **True measures.** Whatever the regions and the monitor are, the numbers of a scan that succeeds
are the measures of the bytes it was given, which are all bytes of the region. There are two writes
for each loop. So there are at least as many loops as the greatest depth tells, at least two
instructions for each of them, and no depth exactly if there is no loop. -/
theorem statistics_measure_scanned {statistics : Statistics}
    (hok : (resolve region w m table monitor).result = .ok statistics) :
    let outcome := resolve region w m table monitor
    let scanned := outcome.scanned region
    (scanned.length = region.size.toNat ∧
      ∀ i byte, scanned[i]? = some byte → region.read (.ofNat i) = .ok byte) ∧
    statistics.instructions = region.size ∧ statistics.Measures scanned ∧
    outcome.puts.length = 2 * statistics.pairs.toNat ∧
    statistics.maxDepth ≤ statistics.pairs.toNat ∧
    2 * statistics.pairs.toNat ≤ statistics.instructions.toNat ∧
    (statistics.maxDepth = 0 ↔ statistics.pairs = 0) := by
  obtain ⟨bytes, closed, s, hwent, hlength, hstatistics, hscanned, hputs⟩ := exists_went_of_ok hok
  have hbalanced := hwent.course.balanced
  have hmeasures : statistics.Measures bytes := by
    rw [hstatistics]
    exact hbalanced.measures_ofImage (hlength ▸ region.size.toNat_lt_size)
  have hinstructions : statistics.instructions.toNat = region.size.toNat :=
    hmeasures.instructions_eq.trans hlength
  have hdepth : statistics.maxDepth = maxNesting bytes := by rw [hstatistics]; rfl
  intro outcome scanned
  rw [show scanned = bytes from hscanned]
  refine ⟨⟨hlength, fun i byte => hwent.read_eq⟩, UInt64.toNat_inj.1 hinstructions, hmeasures, ?_,
    ?_, ?_, ?_⟩
  · rw [show outcome.puts = _ from hputs, length_flatMap_pairPuts, hwent.course.length_closed,
      hmeasures.pairs_eq_closes]
  · rw [hdepth, hmeasures.pairs_eq_opens]
    exact maxNesting_le_count bytes
  · have hcounts := count_open_add_count_close_le_length bytes
    rw [← hmeasures.pairs_eq_opens, ← hmeasures.pairs_eq_closes,
      ← hmeasures.instructions_eq] at hcounts
    omega
  · rw [hdepth, hbalanced.maxNesting_eq_zero_iff, ← hmeasures.pairs_eq_opens, ← UInt64.toNat_inj]
    rfl

/-- A loop around a loop, an instruction that is part of none, and a second loop inside. There are
three loops, but two of them open at one time. -/
theorem statistics_measure_scanned_nested :
    let image : Bytes := #[6, 6, 7, 2, 6, 7, 7]
    let outcome := resolve (.ofBytes image) .bytes .silent (Bytes.zeros 14) ()
    outcome.result = .ok ⟨7, 3, 2⟩ ∧
      Statistics.Measures ⟨7, 3, 2⟩ (outcome.scanned (.ofBytes image)) ∧
      outcome.puts.length = 6 := by
  intro image outcome
  have hsome : outcome.result.toOption = some ⟨7, 3, 2⟩ := by decide +kernel
  have hok : outcome.result = .ok ⟨7, 3, 2⟩ := by
    cases hresult : outcome.result with
    | ok statistics =>
      rw [hresult] at hsome
      rw [Option.some.inj hsome]
    | error cause =>
      rw [hresult] at hsome
      cases hsome
  obtain ⟨-, -, hmeasures, hputs, -⟩ := statistics_measure_scanned hok
  exact ⟨hok, hmeasures, hputs⟩

end Measures

end LoopTable
