import Mathlib.Data.List.Nodup
import LoopTable.Proofs.History
import LoopTable.Proofs.Resolution.Counting
import LoopTable.Proofs.Resolution.Protocol

/-!
# The log of a scan

A scan logs that it begins, then each loop it has resolved, and in the end what it has counted or
which loop has no partner. `Outcome.LogTells` says so of a whole scan, and that the loops logged are
those both of whose words were accepted: no more, no fewer, and in the order of their ends. So it is
over any regions and under any monitor (`logTells_resolve`).

* `Writable.Accepts` says of one of several writes that the table accepted it when it came to it.
  Since no slot is written twice (`Course.nodup_puts`), a write that was refused once was not
  accepted at some other time, and so the end of a loop that fails leaves one of its two words
  unaccepted (`Settled.not_accepts`).
* `LastRecords` lists what a scan can log behind its loops, by the bytes it was given and its
  result.
-/

namespace LoopTable

/-! ## Writes that are accepted -/

/-- Among some writes is one that a table accepts, changed as it is by the writes before. -/
def Writable.Accepts {σ : Type} (w : Writable σ) (table : σ) (puts : List (UInt64 × List UInt8))
    (put : UInt64 × List UInt8) : Prop :=
  ∃ before after, puts = before ++ put :: after ∧
    (w.put put.1 put.2 (w.replay table before)).1 = .ok ()

namespace Writable

variable {σ : Type} {w : Writable σ} {table : σ} {puts later : List (UInt64 × List UInt8)}
  {put last : UInt64 × List UInt8}

theorem Accepts.mem (h : w.Accepts table puts put) : put ∈ puts := by
  obtain ⟨before, after, rfl, -⟩ := h
  exact List.mem_append_right _ (List.mem_cons_self ..)

/-- A write that was accepted stays so, whatever follows. -/
theorem Accepts.mono (h : w.Accepts table puts put) (hextends : puts <+: later) :
    w.Accepts table later put := by
  obtain ⟨before, after, rfl, hanswer⟩ := h
  obtain ⟨more, rfl⟩ := hextends
  exact ⟨before, after ++ more, by rw [List.append_assoc, List.cons_append], hanswer⟩

/-- The last of some writes is accepted if the table answers so, and adds no other one. -/
theorem accepts_snoc_iff : w.Accepts table (puts ++ [last]) put ↔
    w.Accepts table puts put ∨
      (put = last ∧ (w.put last.1 last.2 (w.replay table puts)).1 = .ok ()) := by
  constructor
  · rintro ⟨before, after, heq, hanswer⟩
    rcases snoc_eq_append_cons_iff.1 heq with ⟨rfl, rfl, -⟩ | ⟨rest, -, hputs⟩
    · exact Or.inr ⟨rfl, hanswer⟩
    · exact Or.inl ⟨before, rest, hputs, hanswer⟩
  · rintro (h | ⟨rfl, hanswer⟩)
    · exact h.mono (List.prefix_append _ _)
    · exact ⟨puts, [], rfl, hanswer⟩

/-- A write that a table refuses is not accepted if it came only once. -/
theorem not_accepts_snoc {fault : Fault}
    (hrefused : (w.put last.1 last.2 (w.replay table puts)).1 = .error fault) (hnew : last ∉ puts) :
    ¬ w.Accepts table (puts ++ [last]) last := by
  rw [accepts_snoc_iff]
  rintro (h | ⟨-, hanswer⟩)
  · exact hnew h.mem
  · rw [hrefused] at hanswer
    cases hanswer

end Writable

/-! ## Loops in the order of their ends -/

section Course

variable {bytes : List UInt8} {opened : List Nat} {closed : List (Nat × Nat)}

/-- Loops are closed in the order of their ends. -/
theorem Course.pairwise_closed (h : Course bytes opened closed) :
    closed.Pairwise fun earlier later => earlier.2 < later.2 := by
  induction h with
  | nil => exact List.Pairwise.nil
  | inert _ _ ih | opened _ ih => exact ih
  | @closed bytes o opened closed hcourse ih =>
    refine List.pairwise_append.2 ⟨ih, List.pairwise_singleton _ _, ?_⟩
    intro (o', c) hmem last hlast
    obtain rfl := List.mem_singleton.1 hlast
    exact (hcourse.mem_closed_iff.1 hmem).closing_lt_length

/-- The words of the loops closed are all different writes. -/
theorem Course.nodup_puts (h : Course bytes opened closed)
    (hsize : 2 * bytes.length < UInt64.size) : (closed.flatMap pairPuts).Nodup := by
  refine List.Nodup.of_map (fun put => put.1.toNat) ?_
  rw [map_offset_pairPuts fun o c hmem => ?_]
  · exact h.nodup_slots.map fun a b hab => Nat.eq_of_mul_eq_mul_left Nat.two_pos hab
  · have hm := h.mem_closed_iff.1 hmem
    have hlt := hm.lt
    have hc := hm.closing_lt_length
    omega

end Course

/-! ## Records in the course of a scan -/

/-- What is logged of a loop. -/
def Record.ofPair : Nat × Nat → Record
  | (o, c) => .pairResolved (.ofNat o) (.ofNat c)

namespace Scan

variable {σ μ : Type} (s : Scan σ μ) (m : Monitor μ) (w : Writable σ) (a d : UInt64)

/-- The records logged so far. -/
def records : List Record :=
  s.events.toList.filterMap fun
    | .logged record => some record
    | _ => none

@[simp] theorem records_logged (record : Record) :
    (s.noted (.logged record)).records = s.records ++ [record] := by
  simp [records, noted]

@[simp] theorem records_polled (answer : Bool) :
    (s.noted (.polled answer)).records = s.records := by
  simp [records, noted]

@[simp] theorem records_asked : (s.asked m a).records = s.records := by
  simp [records, asked]

@[simp] theorem records_opened : (s.opened a).records = s.records := rfl
@[simp] theorem records_taken : s.taken.records = s.records := rfl

@[simp] theorem records_wordSent : (s.wordSent w a d).records = s.records := by
  simp [records, wordSent]

@[simp] theorem records_resolved :
    (s.resolved a d).records = s.records ++ [.pairResolved a d] := by
  simp [records, resolved]

end Scan

@[simp] theorem Outcome.records_ofResult_error {σ μ : Type} (cause : ResolutionError)
    (s : Scan σ μ) : (ofResult (.error cause s)).records = s.records := rfl

@[simp] theorem Outcome.records_ofResult_ok {σ μ : Type} (statistics : Statistics)
    (s : Scan σ μ) : (ofResult (.ok statistics s)).records = s.records := rfl

/-! ## What a log tells -/

/-- The loops of some bytes both of whose words a table accepts, among some writes. -/
def AreWritten {σ : Type} (w : Writable σ) (table : σ) (puts : List (UInt64 × List UInt8))
    (scanned : List UInt8) (pairs : List (Nat × Nat)) : Prop :=
  ∀ o c, (o, c) ∈ pairs ↔
    Matched scanned o c ∧ ∀ put ∈ pairPuts (o, c), w.Accepts table puts put

/-- What a scan logs behind its loops, by the bytes it was given, the number of loops logged and its
result. -/
inductive LastRecords (scanned : List UInt8) (pairs : Nat) :
    Except ResolutionError Statistics → List Record → Prop
  /-- It succeeds, and logs what it has counted: as many loops as it has logged. -/
  | finished {statistics : Statistics} : statistics.pairs.toNat = pairs →
      LastRecords scanned pairs (.ok statistics)
        [.scanFinished statistics.pairs statistics.maxDepth]
  /-- The last byte closes a loop where none is open, and its address is logged. -/
  | stray {bytes : List UInt8} : scanned = bytes ++ [closeByte] →
      (∀ o, ¬ Unclosed bytes bytes.length o) →
      LastRecords scanned pairs (.error (.unmatched (some (.ofNat bytes.length))))
        [.strayClose (.ofNat bytes.length)]
  /-- Some loops are left open, `o` the first of them. Their number is logged, by which the starts
  outnumber the ends. -/
  | leftOpen {o : Nat} {others : List Nat} :
      (∀ a, a ∈ o :: others ↔ Unclosed scanned scanned.length a) →
      (o :: others).Pairwise (· < ·) → surplus scanned = (o :: others).length →
      LastRecords scanned pairs (.error (.unmatched (some (.ofNat o))))
        [.leftOpen (o :: others).length (.ofNat o)]
  /-- A destination does not fit into a word. -/
  | unencodable {address destination : UInt64} :
      LastRecords scanned pairs (.error (.unencodable address destination)) []
  /-- An access has failed. -/
  | memory {fault : Fault} : LastRecords scanned pairs (.error (.memory fault)) []
  /-- The monitor has asked to stop. -/
  | cancelled : LastRecords scanned pairs (.error .cancelled) []

/-- The levels of the records behind the loops. -/
def lastLevels : Except ResolutionError Statistics → List Level
  | .ok _ => [.debug]
  | .error (.unmatched _) => [.warn]
  | .error _ => []

theorem LastRecords.levels_eq {scanned : List UInt8} {pairs : Nat}
    {result : Except ResolutionError Statistics} {last : List Record}
    (h : LastRecords scanned pairs result last) : last.map Record.level = lastLevels result := by
  cases h <;> rfl

theorem LastRecords.ne_tableTooSmall {scanned : List UInt8} {pairs : Nat}
    {result : Except ResolutionError Statistics} {last : List Record}
    (h : LastRecords scanned pairs result last) (imageSize tableSize : UInt64) :
    result ≠ .error (.tableTooSmall imageSize tableSize) := by
  rintro rfl
  cases h

/-- The log of a scan whose table has room: that it begins, the loops it has resolved, and the last
records. -/
structure Logged {σ μ : Type} (region : Readable) (w : Writable σ) (table : σ)
    (outcome : Outcome σ μ) (pairs : List (Nat × Nat)) (last : List Record) : Prop where
  /-- These are the records. -/
  records_eq : outcome.records = .scanStarted region.size :: pairs.map Record.ofPair ++ last
  /-- The loops come in the order of their ends. -/
  ordered : pairs.Pairwise fun earlier later => earlier.2 < later.2
  /-- They are the loops both of whose words were accepted. -/
  written : AreWritten w table outcome.puts (outcome.scanned region) pairs
  /-- The last records go with the result. -/
  last : LastRecords (outcome.scanned region) pairs.length outcome.result last
  /-- All addresses are those of bytes that the region claims to hold. -/
  scanned_le : (outcome.scanned region).length ≤ region.size.toNat

theorem Logged.levels_eq {σ μ : Type} {region : Readable} {w : Writable σ} {table : σ}
    {outcome : Outcome σ μ} {pairs : List (Nat × Nat)} {last : List Record}
    (h : Logged region w table outcome pairs last) :
    outcome.records.map Record.level =
      .debug :: List.replicate pairs.length .trace ++ lastLevels outcome.result := by
  have hpairs : (pairs.map Record.ofPair).map Record.level =
      List.replicate pairs.length .trace := by
    rw [List.map_map, ← List.map_const]
    rfl
  rw [h.records_eq, List.map_append, List.map_cons, hpairs, h.last.levels_eq]
  rfl

/-- The log of a scan tells what was written. There is none if the table has too few words for the
image. Otherwise it is as `Logged` says: that the scan begins at level debug, one record at level
trace for each loop that was written, and the last records. -/
def Outcome.LogTells {σ μ : Type} (region : Readable) (w : Writable σ) (table : σ)
    (outcome : Outcome σ μ) : Prop :=
  ((∃ imageSize tableSize, outcome.result = .error (.tableTooSmall imageSize tableSize)) ∧
    outcome.records = []) ∨
  ((∀ imageSize tableSize, outcome.result ≠ .error (.tableTooSmall imageSize tableSize)) ∧
    ∃ pairs last, Logged region w table outcome pairs last ∧
      outcome.records.map Record.level =
        .debug :: List.replicate pairs.length .trace ++ lastLevels outcome.result)

/-! ## Scans tell it -/

section Run

variable {σ μ : Type} {region : Readable} {w : Writable σ} {m : Monitor μ} {table : σ} {monitor : μ}
  {bytes : List UInt8} {opened : List Nat} {closed : List (Nat × Nat)} {s s' : Scan σ μ}

/-- As long as a run goes well, it has logged the loops closed. -/
theorem Went.records_eq (h : Went region w m table monitor bytes opened closed s) :
    s.records = .scanStarted region.size :: closed.map Record.ofPair := by
  induction h with
  | start => rfl
  | inert _ _ _ _ _ ih => rw [Scan.records_asked, ih]
  | opened _ _ _ _ ih => rw [Scan.records_opened, Scan.records_asked, ih]
  | closed _ _ _ _ hsettled ih =>
    cases hsettled with
    | done =>
      rw [Scan.records_resolved, Scan.records_wordSent, Scan.records_wordSent, Scan.records_taken,
        Scan.records_asked, ih, List.map_append, List.cons_append]
      rfl

/-- As long as a run goes well, both words of every loop closed have been accepted. -/
theorem Went.accepts (h : Went region w m table monitor bytes opened closed s) :
    ∀ pair ∈ closed, ∀ put ∈ pairPuts pair, w.Accepts table s.puts put := by
  induction h with
  | start => exact fun _ hpair => absurd hpair List.not_mem_nil
  | inert _ _ _ _ _ ih =>
    rw [Scan.puts_asked]
    exact ih
  | opened _ _ _ _ ih =>
    rw [Scan.puts_opened, Scan.puts_asked]
    exact ih
  | @closed bytes o opened closed s s' hwent _ _ hread hsettled ih =>
    have hasked := (hwent.answered.asked m hread).taken
    cases hsettled with
    | done _ hend _ hstart =>
      have htable := (hasked.wordSent hend).table_eq
      rw [Scan.wordAnswer, hasked.table_eq] at hend
      rw [Scan.wordAnswer, htable, Scan.puts_wordSent] at hstart
      rw [Scan.puts_resolved, Scan.puts_wordSent, Scan.puts_wordSent]
      rw [Scan.puts_taken, Scan.puts_asked] at hend hstart ⊢
      have hfirst : w.Accepts table (s.puts ++ [Scan.wordPut (.ofNat bytes.length) (.ofNat o)])
          (Scan.wordPut (.ofNat bytes.length) (.ofNat o)) :=
        Writable.accepts_snoc_iff.2 (Or.inr ⟨rfl, hend⟩)
      intro pair hpair put hput
      rcases List.mem_append.1 hpair with hpair | hpair
      · exact ((ih pair hpair put hput).mono (List.prefix_append _ _)).mono (List.prefix_append _ _)
      · obtain rfl := List.mem_singleton.1 hpair
        rcases List.mem_cons.1 hput with rfl | hput
        · exact hfirst.mono (List.prefix_append _ _)
        · obtain rfl := List.mem_singleton.1 hput
          exact Writable.accepts_snoc_iff.2 (Or.inr ⟨rfl, hstart⟩)

/-- As long as a run goes well, the loops closed are those written. -/
theorem Went.areWritten (h : Went region w m table monitor bytes opened closed s) :
    AreWritten w table s.puts bytes closed := by
  intro o c
  constructor
  · exact fun hmem => ⟨h.course.mem_closed_iff.1 hmem, h.accepts (o, c) hmem⟩
  · exact fun hwritten => h.course.mem_closed_iff.2 hwritten.1

/-- One byte more that closes a loop adds nothing to the loops written if some word of that loop is
not accepted. -/
theorem Went.areWritten_snoc (h : Went region w m table monitor bytes opened closed s)
    {puts : List (UInt64 × List UInt8)} (hextends : s.puts <+: puts)
    (hlast : ∀ o, Matched (bytes ++ [closeByte]) o bytes.length →
      ∃ put ∈ pairPuts (o, bytes.length), ¬ w.Accepts table puts put) :
    AreWritten w table puts (bytes ++ [closeByte]) closed := by
  intro o c
  constructor
  · intro hmem
    obtain ⟨hm, haccepts⟩ := (h.areWritten o c).1 hmem
    exact ⟨matched_snoc_iff.2 (Or.inl hm), fun put hput => (haccepts put hput).mono hextends⟩
  · rintro ⟨hm, haccepts⟩
    rcases matched_snoc_iff.1 hm with hm | ⟨rfl, hm⟩
    · exact h.course.mem_closed_iff.2 hm
    · obtain ⟨put, hput, hrefused⟩ := hlast o hm
      exact absurd (haccepts put hput) hrefused

/-- The end of a loop that cannot be dealt with logs nothing and leaves one of its two words
unaccepted, provided that both are new. -/
theorem Settled.not_accepts {o c : Nat} {cause : ResolutionError}
    (h : Settled w (.ofNat o) (.ofNat c) s (.error cause s'))
    (hs : s.table = w.replay table s.puts) (hnodup : (s.puts ++ pairPuts (o, c)).Nodup) :
    s'.records = s.records ∧ s.puts <+: s'.puts ∧
      ∃ put ∈ pairPuts (o, c), ¬ w.Accepts table s'.puts put := by
  obtain ⟨-, hpair, hnew⟩ := List.nodup_append.1 hnodup
  have hends : Scan.wordPut (.ofNat o) (.ofNat c + 1) ≠ Scan.wordPut (.ofNat c) (.ofNat o) :=
    fun heq => (List.nodup_cons.1 hpair).1 (heq ▸ List.mem_singleton_self _)
  have hnewEnd : Scan.wordPut (.ofNat c) (.ofNat o) ∉ s.puts :=
    fun hmem => hnew _ hmem _ (List.mem_cons_self ..) rfl
  have hnewStart : Scan.wordPut (.ofNat o) (.ofNat c + 1) ∉
      s.puts ++ [Scan.wordPut (.ofNat c) (.ofNat o)] := by
    intro hmem
    rcases List.mem_append.1 hmem with hmem | hmem
    · exact hnew _ hmem _ (List.mem_cons_of_mem _ (List.mem_singleton_self _)) rfl
    · exact hends (List.mem_singleton.1 hmem)
  cases h with
  | farStart =>
    exact ⟨rfl, List.prefix_refl _, _, List.mem_cons_self .., fun h => hnewEnd h.mem⟩
  | faultAtEnd _ hfault =>
    rw [Scan.wordAnswer, hs] at hfault
    rw [Scan.records_wordSent, Scan.puts_wordSent]
    exact ⟨rfl, List.prefix_append _ _, _, List.mem_cons_self ..,
      Writable.not_accepts_snoc hfault hnewEnd⟩
  | farEnd =>
    rw [Scan.records_wordSent, Scan.puts_wordSent]
    exact ⟨rfl, List.prefix_append _ _, _, List.mem_cons_of_mem _ (List.mem_singleton_self _),
      fun h => hnewStart h.mem⟩
  | faultAtStart _ _ _ hfault =>
    rw [Scan.wordAnswer, Scan.table_eq_wordSent hs, Scan.puts_wordSent] at hfault
    rw [Scan.records_wordSent, Scan.records_wordSent, Scan.puts_wordSent, Scan.puts_wordSent]
    exact ⟨rfl, (List.prefix_append _ _).trans (List.prefix_append _ _), _,
      List.mem_cons_of_mem _ (List.mem_singleton_self _),
      Writable.not_accepts_snoc hfault hnewStart⟩

/-- The end of a loop that cannot be dealt with logs no last record. -/
theorem Settled.lastRecords {o c : UInt64} {cause : ResolutionError} (scanned : List UInt8)
    (pairs : Nat) (h : Settled w o c s (.error cause s')) :
    LastRecords scanned pairs (.error cause) [] := by
  cases h with
  | farStart | farEnd => exact .unencodable
  | faultAtEnd | faultAtStart => exact .memory

/-- After visits that went well, the loops closed are logged, and then the last records. -/
theorem Went.logged (h : Went region w m table monitor bytes opened closed s)
    {outcome : Outcome σ μ} {last : List Record} (hscanned : outcome.scanned region = bytes)
    (hputs : outcome.puts = s.puts) (hrecords : outcome.records = s.records ++ last)
    (hlast : LastRecords bytes closed.length outcome.result last) :
    Logged region w table outcome closed last where
  records_eq := by rw [hrecords, h.records_eq]
  ordered := h.course.pairwise_closed
  written := by
    rw [hscanned, hputs]
    exact h.areWritten
  last := hscanned ▸ hlast
  scanned_le := hscanned ▸ h.length_le

/-- The same with the end of a loop behind them of which some word is not accepted. -/
theorem Went.logged_close (h : Went region w m table monitor bytes opened closed s)
    (hlt : bytes.length < region.size.toNat) {outcome : Outcome σ μ} {last : List Record}
    (hscanned : outcome.scanned region = bytes ++ [closeByte]) (hextends : s.puts <+: outcome.puts)
    (hunwritten : ∀ o, Matched (bytes ++ [closeByte]) o bytes.length →
      ∃ put ∈ pairPuts (o, bytes.length), ¬ w.Accepts table outcome.puts put)
    (hrecords : outcome.records = s.records ++ last)
    (hlast : LastRecords (bytes ++ [closeByte]) closed.length outcome.result last) :
    Logged region w table outcome closed last where
  records_eq := by rw [hrecords, h.records_eq]
  ordered := h.course.pairwise_closed
  written := by
    rw [hscanned]
    exact h.areWritten_snoc hextends hunwritten
  last := hscanned ▸ hlast
  scanned_le := by
    rw [hscanned, List.length_append, List.length_singleton]
    exact hlt

/-- Where the image ends, the loops left open are logged by their number and the first of them. -/
theorem Went.lastRecords_of_open {o : Nat} (pairs : Nat)
    (h : Went region w m table monitor bytes (opened ++ [o]) closed s) :
    LastRecords bytes pairs (.error (.unmatched (some (.ofNat o))))
      [.leftOpen s.pending.depth (.ofNat o)] := by
  have hreverse : (opened ++ [o]).reverse = o :: opened.reverse := List.reverse_concat
  have hdepth : s.pending.depth = (o :: opened.reverse).length := by
    rw [Pending.depth, h.addresses_eq, hreverse, List.size_toArray, List.length_map]
  rw [hdepth]
  refine .leftOpen (fun a => ?_) ?_ ?_
  · rw [← hreverse, List.mem_reverse]
    exact h.course.mem_opened_iff
  · rw [← hreverse, List.pairwise_reverse]
    exact h.course.pairwise_opened
  · rw [h.course.surplus_eq, ← hreverse, List.length_reverse]

/-- What is logged when a visit fails after others that went well. -/
theorem Visited.logged {cause : ResolutionError}
    (hwent : Went region w m table monitor bytes opened closed s)
    (hlt : bytes.length < region.size.toNat) (hsize : 2 * region.size.toNat < UInt64.size)
    (h : Visited region w m (.ofNat bytes.length) s (.error cause s')) :
    ∃ last, Logged region w table (Outcome.ofResult (.error cause s')) closed last := by
  cases h with
  | cancelled =>
    refine ⟨[], hwent.logged ?_ ?_ ?_ .cancelled⟩
    · rw [Outcome.scanned_ofResult_error, Scan.reads_polled, hwent.answers_eq]
    · rw [Outcome.puts_ofResult_error, Scan.puts_polled]
    · rw [Outcome.records_ofResult_error, Scan.records_polled, List.append_nil]
  | unreadable _ hread =>
    refine ⟨[], hwent.logged ?_ ?_ ?_ .memory⟩
    · rw [Outcome.scanned_ofResult_error, Scan.reads_asked, Readable.answers_snoc_of_error hread,
        hwent.answers_eq]
    · rw [Outcome.puts_ofResult_error, Scan.puts_asked]
    · rw [Outcome.records_ofResult_error, Scan.records_asked, List.append_nil]
  | stray _ hread hpeek =>
    rw [hwent.peek?_eq, Option.map_eq_none_iff, List.head?_eq_none_iff] at hpeek
    subst hpeek
    have hfree : ∀ o, ¬ Unclosed bytes bytes.length o :=
      fun o ho => List.not_mem_nil (hwent.course.mem_opened_iff.2 ho)
    refine ⟨[.strayClose (.ofNat bytes.length)],
      hwent.logged_close hlt ?_ ?_ (fun o hm => absurd ?_ (hfree o)) ?_ (.stray rfl hfree)⟩
    · rw [Outcome.scanned_ofResult_error, Scan.reads_logged, Scan.reads_taken, Scan.reads_asked,
        Readable.answers_snoc_of_ok hread, hwent.answers_eq]
    · refine ⟨[], ?_⟩
      rw [List.append_nil, Outcome.puts_ofResult_error, Scan.puts_logged, Scan.puts_taken,
        Scan.puts_asked]
    · -- A loop with this end would be open before it.
      have hopen := unclosed_take_iff.2 hm.unclosed
      rwa [List.take_left] at hopen
    · rw [Outcome.records_ofResult_error, Scan.records_logged, Scan.records_taken,
        Scan.records_asked]
  | closed _ hread hpeek hsettled =>
    obtain ⟨o, rest, rfl, rfl⟩ := hwent.eq_cons_of_peek? hpeek
    have hlength : (bytes ++ [closeByte]).length = bytes.length + 1 := List.length_append
    have hnodup : ((s.asked m (.ofNat bytes.length)).taken.puts ++
        pairPuts (o, bytes.length)).Nodup := by
      have hall := hwent.course.closed.nodup_puts (by omega)
      rw [List.flatMap_append, List.flatMap_singleton, ← hwent.puts_eq] at hall
      rw [Scan.puts_taken, Scan.puts_asked]
      exact hall
    obtain ⟨hrecords, hextends, hunwritten⟩ :=
      hsettled.not_accepts (hwent.answered.asked m hread).taken.table_eq hnodup
    rw [Scan.records_taken, Scan.records_asked] at hrecords
    rw [Scan.puts_taken, Scan.puts_asked] at hextends
    refine ⟨[], hwent.logged_close hlt ?_ hextends (fun o' hm => ?_) ?_ (hsettled.lastRecords _ _)⟩
    · rw [Outcome.scanned_ofResult_error, hsettled.reads_eq, Scan.reads_taken, Scan.reads_asked,
        Readable.answers_snoc_of_ok hread, hwent.answers_eq]
    · obtain rfl := hm.opening_unique hwent.course.layers.matched_close
      exact hunwritten
    · rw [Outcome.records_ofResult_error, hrecords, List.append_nil]

/-- **Log.** Over any regions and under any monitor, the log of a scan tells what was written. -/
theorem logTells_resolve (region : Readable) (w : Writable σ) (m : Monitor μ) (table : σ)
    (monitor : μ) : (resolve region w m table monitor).LogTells region w table := by
  have hended := ended_resolve region w m table monitor
  generalize resolve region w m table monitor = outcome at hended ⊢
  have htells : ∀ pairs last, Logged region w table outcome pairs last →
      outcome.LogTells region w table :=
    fun pairs last h => Or.inr ⟨h.last.ne_tableTooSmall, pairs, last, h, h.levels_eq⟩
  cases hended with
  | tooSmall => exact Or.inl ⟨⟨_, _, rfl⟩, rfl⟩
  | @stopped bytes opened closed s s' cause hroom hwent hlt hvisited =>
    rw [Word.div_size_lt_iff] at hroom
    have hsize := (w.size table).toNat_lt_size
    obtain ⟨last, hlogged⟩ := hvisited.logged hwent hlt (by omega)
    exact htells closed last hlogged
  | @leftOpen bytes opened o closed s _ hwent hlength =>
    refine htells closed [.leftOpen s.pending.depth (.ofNat o)]
      (hwent.logged ?_ ?_ ?_ (hwent.lastRecords_of_open _))
    · rw [Outcome.scanned_ofResult_error, Scan.reads_logged, hwent.answers_eq]
    · rw [Outcome.puts_ofResult_error, Scan.puts_logged]
    · rw [Outcome.records_ofResult_error, Scan.records_logged]
  | @finished bytes closed s _ hwent hlength =>
    refine htells closed [.scanFinished s.pairs s.pending.maxDepth]
      (hwent.logged ?_ ?_ ?_ (.finished hwent.toNat_pairs))
    · rw [Outcome.scanned_ofResult_ok, Scan.reads_logged, hwent.answers_eq]
    · rw [Outcome.puts_ofResult_ok, Scan.puts_logged]
    · rw [Outcome.records_ofResult_ok, Scan.records_logged]

end Run

end LoopTable
