import LoopTable.Proofs.Resolution.Ending

/-!
# How far a scan comes

As long as a scan goes well it asks for byte after byte (`Went.reads_eq`). Over an image in memory,
one that is not cancelled comes to the end of the image or to an address that blocks, and visits
that address as its last (`exists_coverage`).

* `Coverage` says which bytes a scan asks for, which polls it has answered, and where it stops.
* `Outcome.FailsBefore` says of a scan that it failed without having come to an address. By the
  image alone: an earlier address blocks (`Coverage.failsBefore_iff`).
-/

namespace LoopTable

/-! ## Bytes asked for -/

/-- The offset of the byte that an event asks for, if it does. -/
def Event.read? : Event → Option UInt64
  | .read offset => some offset
  | _ => none

/-- The bytes that a scan asked for, in order. -/
def Outcome.reads {σ μ : Type} (o : Outcome σ μ) : List UInt64 :=
  o.events.filterMap Event.read?

/-- The bytes that a region answers with where it is asked for some, in order. -/
def Readable.answers (region : Readable) (offsets : List UInt64) : List UInt8 :=
  offsets.filterMap fun offset => (region.read offset).toOption

/-- The bytes that a scan was given, in order. -/
def Outcome.scanned {σ μ : Type} (region : Readable) (o : Outcome σ μ) : List UInt8 :=
  region.answers o.reads

/-- A scan failed and had asked for no byte at an address or behind it. -/
def Outcome.FailsBefore {σ μ : Type} (o : Outcome σ μ) (k : Nat) : Prop :=
  (∃ cause, o.result = .error cause) ∧ ∀ a ∈ o.reads, a.toNat < k

namespace Readable

variable {region : Readable} {offsets : List UInt64} {offset : UInt64}

theorem answers_snoc_of_ok {byte : UInt8} (h : region.read offset = .ok byte) :
    region.answers (offsets ++ [offset]) = region.answers offsets ++ [byte] := by
  simp [answers, h, Except.toOption]

theorem answers_snoc_of_error {fault : Fault} (h : region.read offset = .error fault) :
    region.answers (offsets ++ [offset]) = region.answers offsets := by
  simp [answers, h, Except.toOption]

end Readable

namespace Scan

variable {σ μ : Type} (s : Scan σ μ) (m : Monitor μ) (w : Writable σ) (a d : UInt64)

/-- The bytes asked for so far. -/
def reads : List UInt64 :=
  s.events.toList.filterMap Event.read?

@[simp] theorem reads_logged (record : Record) : (s.noted (.logged record)).reads = s.reads := by
  simp [reads, noted, Event.read?]

@[simp] theorem reads_polled (answer : Bool) : (s.noted (.polled answer)).reads = s.reads := by
  simp [reads, noted, Event.read?]

@[simp] theorem reads_asked : (s.asked m a).reads = s.reads ++ [a] := by
  simp [reads, asked, List.filterMap_cons, Event.read?]

@[simp] theorem reads_opened : (s.opened a).reads = s.reads := rfl
@[simp] theorem reads_taken : s.taken.reads = s.reads := rfl

@[simp] theorem reads_wordSent : (s.wordSent w a d).reads = s.reads := by
  simp [reads, wordSent, Event.read?]

@[simp] theorem reads_resolved : (s.resolved a d).reads = s.reads := by
  simp [reads, resolved, Event.read?]

end Scan

@[simp] theorem Outcome.scanned_ofResult_error {σ μ : Type} (region : Readable)
    (cause : ResolutionError) (s : Scan σ μ) :
    (ofResult (.error cause s)).scanned region = region.answers s.reads := rfl

@[simp] theorem Outcome.scanned_ofResult_ok {σ μ : Type} (region : Readable)
    (statistics : Statistics) (s : Scan σ μ) :
    (ofResult (.ok statistics s)).scanned region = region.answers s.reads := rfl

section Run

variable {σ μ : Type} {region : Readable} {w : Writable σ} {m : Monitor μ} {table : σ} {monitor : μ}
  {bytes : List UInt8} {opened : List Nat} {closed : List (Nat × Nat)} {s s' : Scan σ μ}

theorem map_ofNat_range_succ (n : Nat) :
    (List.range (n + 1)).map UInt64.ofNat = (List.range n).map UInt64.ofNat ++ [.ofNat n] := by
  rw [List.range_succ, List.map_append, List.map_singleton]

/-- As long as a run goes well, it asks for byte after byte. -/
theorem Went.reads_eq (h : Went region w m table monitor bytes opened closed s) :
    s.reads = (List.range bytes.length).map UInt64.ofNat := by
  induction h with
  | start => rfl
  | inert _ _ _ _ _ ih | opened _ _ _ _ ih =>
    simp [ih, map_ofNat_range_succ]
  | closed _ _ _ _ hsettled ih =>
    cases hsettled with
    | done => simp [ih, map_ofNat_range_succ]

/-- As long as a run goes well, it has been given the bytes that are read. -/
theorem Went.answers_eq (h : Went region w m table monitor bytes opened closed s) :
    region.answers s.reads = bytes := by
  induction h with
  | start => rfl
  | inert _ _ _ hread _ ih =>
    rw [Scan.reads_asked, Readable.answers_snoc_of_ok hread, ih]
  | opened _ _ _ hread ih =>
    rw [Scan.reads_opened, Scan.reads_asked, Readable.answers_snoc_of_ok hread, ih]
  | closed _ _ _ hread hsettled ih =>
    cases hsettled with
    | done =>
      rw [Scan.reads_resolved, Scan.reads_wordSent, Scan.reads_wordSent, Scan.reads_taken,
        Scan.reads_asked, Readable.answers_snoc_of_ok hread, ih]

/-- The end of a loop asks for no byte. -/
theorem Settled.reads_eq {opening closing : UInt64} {cause : ResolutionError}
    (h : Settled w opening closing s (.error cause s')) : s'.reads = s.reads := by
  cases h with
  | farStart => rfl
  | faultAtEnd | farEnd => rw [Scan.reads_wordSent]
  | faultAtStart => rw [Scan.reads_wordSent, Scan.reads_wordSent]

/-- A visit that fails without being cancelled has asked for its byte. -/
theorem Visited.reads_eq {address : UInt64} {cause : ResolutionError}
    (h : Visited region w m address s (.error cause s')) (hcause : cause ≠ .cancelled) :
    m.isCancelled s.monitor = false ∧ s'.reads = s.reads ++ [address] := by
  cases h with
  | cancelled => exact absurd rfl hcause
  | unreadable hpoll => exact ⟨hpoll, Scan.reads_asked ..⟩
  | stray hpoll => exact ⟨hpoll, by simp⟩
  | closed hpoll _ _ hsettled =>
    exact ⟨hpoll, by rw [hsettled.reads_eq, Scan.reads_taken, Scan.reads_asked]⟩

end Run

/-! ## How far a scan comes -/

/-- A scan of an image that is not cancelled has visited the first `n` addresses, and these are all
or the last of them blocks. -/
structure Coverage {σ μ : Type} (image : List UInt8) (m : Monitor μ) (monitor : μ)
    (outcome : Outcome σ μ) (n : Nat) : Prop where
  /-- It has asked for the bytes at these addresses. -/
  reads_eq : outcome.reads = (List.range n).map UInt64.ofNat
  /-- None of their polls has asked to stop. -/
  polls : ∀ i < n, m.isCancelled (m.after (.ofNat image.length) monitor i) = false
  /-- It has come to the end of the image, or failed where every scan does. -/
  stop : (n = image.length ∧ ∃ opened closed, Passed image n opened closed) ∨
    ∃ e opened closed, n = e + 1 ∧ Passed image e opened closed ∧ Blocks image e ∧
      ∃ cause, outcome.result = .error cause

namespace Coverage

variable {σ μ : Type} {image : List UInt8} {m : Monitor μ} {monitor : μ} {outcome : Outcome σ μ}
  {n : Nat}

/-- Where an address blocks, a scan comes to it at most. -/
theorem le_of_blocks (h : Coverage image m monitor outcome n) {e : Nat} (he : Blocks image e) :
    n ≤ e + 1 ∧ ∃ cause, outcome.result = .error cause := by
  rcases h.stop with ⟨rfl, opened, closed, hpassed⟩ | ⟨e', opened, closed, rfl, hpassed, -, hfail⟩
  · exact absurd he (hpassed.not_blocks_of_length e)
  · exact ⟨Nat.succ_le_succ (Nat.le_of_not_lt fun hlt => hpassed.not_blocks hlt he), hfail⟩

/-- A scan that has not come to an address of the image has met one that blocks. -/
theorem exists_blocks (h : Coverage image m monitor outcome n) {k : Nat} (hk : k < image.length)
    (hn : n ≤ k) : ∃ e < k, Blocks image e := by
  rcases h.stop with ⟨rfl, -⟩ | ⟨e, -, -, rfl, -, hblocks, -⟩
  · exact absurd hk (Nat.not_lt.2 hn)
  · exact ⟨e, hn, hblocks⟩

/-- A scan fails before it comes to an address exactly if an earlier one blocks. -/
theorem failsBefore_iff (h : Coverage image m monitor outcome n) {k : Nat}
    (hk : k < image.length) (himage : image.length < UInt64.size) :
    outcome.FailsBefore k ↔ ∃ e < k, Blocks image e := by
  rw [Outcome.FailsBefore, h.reads_eq]
  constructor
  · rintro ⟨-, hreads⟩
    refine h.exists_blocks hk (Nat.le_of_not_lt fun hlt => ?_)
    have hread := hreads (.ofNat k) (List.mem_map.2 ⟨k, List.mem_range.2 hlt, rfl⟩)
    rw [UInt64.toNat_ofNat_of_lt' (Nat.lt_trans hk himage)] at hread
    exact Nat.lt_irrefl k hread
  · rintro ⟨e, he, hblocks⟩
    obtain ⟨hn, hfail⟩ := h.le_of_blocks hblocks
    refine ⟨hfail, fun a ha => ?_⟩
    obtain ⟨i, hi, rfl⟩ := List.mem_map.1 ha
    have hlt := List.mem_range.1 hi
    rw [UInt64.toNat_ofNat_of_lt' (by omega)]
    omega

end Coverage

section Memory

variable {σ μ : Type} {image : Bytes} {w : Writable σ} {view : σ → Bytes} {m : Monitor μ}
  {table : σ} {monitor : μ}

/-- A visit that fails without being cancelled is the visit of an address that blocks. -/
theorem Visited.blocks (hw : w.Honest view) (hroom : HasRoom image (view table))
    {bytes : List UInt8} {opened : List Nat} {closed : List (Nat × Nat)} {s s' : Scan σ μ}
    {cause : ResolutionError}
    (hwent : Went (.ofBytes image) w m table monitor bytes opened closed s)
    (hlt : bytes.length < image.size) (hcause : cause ≠ .cancelled)
    (h : Visited (.ofBytes image) w m (.ofNat bytes.length) s (.error cause s')) :
    Blocks image.toList bytes.length := by
  have hreached := hwent.reached hw hroom
  cases h with
  | cancelled => exact absurd rfl hcause
  | unreadable _ hread => exact absurd hread (hroom.read_ne_error hlt _)
  | stray _ hread hpeek =>
    rw [hwent.peek?_eq, Option.map_eq_none_iff, List.head?_eq_none_iff] at hpeek
    subst hpeek
    exact hreached.blocks_of_nil (getElem?_toList_of_read hroom hlt hread)
  | closed _ hread hpeek hsettled =>
    obtain ⟨o, rest, rfl, rfl⟩ := hwent.eq_cons_of_peek? hpeek
    have hoc := hwent.course.opened_lt o (List.mem_cons_self ..)
    have henough := hroom.enough
    have hsmall := hroom.addressable
    have htable : (view (s.asked m (.ofNat bytes.length)).taken.table).size = (view table).size :=
      hreached.rewritten.size_eq
    refine ⟨getElem?_toList_of_read hroom hlt hread, Or.inr ?_⟩
    rcases hsettled.honest hw hoc (by omega) (by omega) with ⟨hfar, -⟩ | ⟨-, hfar, -⟩ | ⟨-, heq⟩
    · exact Nat.le_of_lt (Nat.lt_trans hfar hoc)
    · exact hfar
    · cases heq

/-- How far a scan over bytes in memory comes that is not cancelled. -/
theorem exists_coverage (hw : w.Honest view) (hroom : HasRoom image (view table))
    (hcancelled : (resolve (.ofBytes image) w m table monitor).result ≠ .error .cancelled) :
    ∃ n, Coverage image.toList m monitor (resolve (.ofBytes image) w m table monitor) n := by
  have hsize := hroom.toNat_size
  have hlength : image.toList.length = image.size := Array.length_toList
  have hended := ended_resolve (.ofBytes image) w m table monitor
  generalize resolve (.ofBytes image) w m table monitor = outcome at hended hcancelled ⊢
  -- A scan that comes to the end of the image has visited all of it.
  have hwhole : ∀ {bytes : List UInt8} {opened : List Nat} {closed : List (Nat × Nat)}
      {s : Scan σ μ} {o : Outcome σ μ},
      Went (.ofBytes image) w m table monitor bytes opened closed s →
      bytes.length = (Readable.ofBytes image).size.toNat → o.reads = s.reads →
      ∃ n, Coverage image.toList m monitor o n := by
    intro bytes opened closed s o hwent hbytes hreads
    have hpolls := hwent.polls
    have hpassed := hwent.passed (Readable.reflects_ofBytes image)
    rw [hsize, ← hlength] at hbytes
    refine ⟨bytes.length, hreads.trans hwent.reads_eq, ?_, Or.inl ⟨hbytes, _, _, hpassed⟩⟩
    rw [hlength]
    exact hpolls
  cases hended with
  | tooSmall h => exact absurd h (hw.not_tooSmall hroom)
  | leftOpen _ hwent hbytes => exact hwhole hwent hbytes (Scan.reads_logged ..)
  | finished _ hwent hbytes => exact hwhole hwent hbytes (Scan.reads_logged ..)
  | @stopped bytes opened closed s s' cause _ hwent hlt hvisited =>
    have hcause : cause ≠ .cancelled := by
      rintro rfl
      exact hcancelled rfl
    rw [hsize] at hlt
    obtain ⟨hpoll, hreads⟩ := hvisited.reads_eq hcause
    refine ⟨bytes.length + 1, ?_, fun i hi => ?_, Or.inr ⟨bytes.length, opened, closed, rfl,
      hwent.passed (Readable.reflects_ofBytes image), hvisited.blocks hw hroom hwent hlt hcause,
      cause, rfl⟩⟩
    · rw [map_ofNat_range_succ, ← hwent.reads_eq]
      exact hreads
    · rw [hlength]
      rcases Nat.lt_succ_iff_lt_or_eq.1 hi with hi | rfl
      · exact hwent.polls i hi
      · have hmonitor := hwent.monitor_eq
        rw [hmonitor] at hpoll
        exact hpoll

end Memory

end LoopTable
