import LoopTable.Proofs.Resolution.Replay

/-!
# Where a scan writes

Whatever the regions answer and however it ends, a scan sends no words but those of loops of which
it has read both ends, and only those that fit (`exists_word_of_put`). These ends lie inside what
the image claims to hold, for which the table claims to have room (`resolve_fits`). So a table that
leaves alone what it is not asked to write keeps every byte that belongs to no loop instruction
(`resolve_frame`).
-/

namespace LoopTable

/-- A region claims to hold an address, and answers with a loop instruction there. -/
structure Readable.HoldsLoop (region : Readable) (address : Nat) : Prop where
  /-- The address lies inside the region. -/
  lt : address < region.size.toNat
  /-- A loop starts or ends there. -/
  loop : region.read (.ofNat address) = .ok openByte ∨ region.read (.ofNat address) = .ok closeByte

/-- A region of plain bytes holds loop instructions where the bytes are such. -/
theorem Readable.HoldsLoop.of_bytes {bytes : Bytes} {address : Nat}
    (h : (Readable.ofBytes bytes).HoldsLoop address) :
    bytes[address]? = some openByte ∨ bytes[address]? = some closeByte := by
  have haddress : (UInt64.ofNat address).toNat = address :=
    UInt64.toNat_ofNat_of_lt' (Nat.lt_trans h.lt (UInt64.toNat_lt_size _))
  have hloop : bytes.read (.ofNat address) = .ok openByte ∨
      bytes.read (.ofNat address) = .ok closeByte := h.loop
  rwa [Bytes.read_eq_ok_iff, Bytes.read_eq_ok_iff, haddress] at hloop

/-- Two addresses of a region, at the first of which a loop is opened and at the second closed. -/
structure Readable.LoopEnds (region : Readable) (opening closing : Nat) : Prop where
  /-- The loop is opened before it is closed. -/
  lt : opening < closing
  /-- Both addresses lie inside of what the region claims. -/
  inside : closing < region.size.toNat
  /-- The region answers with the start of a loop at the first one. -/
  opens : region.read (.ofNat opening) = .ok openByte
  /-- It answers with the end of a loop at the second one. -/
  closes : region.read (.ofNat closing) = .ok closeByte

/-- The words of a loop, by address, as far as their values fit into words. -/
inductive LoopWord (opening closing : Nat) : Nat → Nat → Prop
  /-- The end of the loop leads to its start. -/
  | ofEnd : opening < 65536 → LoopWord opening closing closing opening
  /-- The start leads behind the end. -/
  | ofStart : closing + 1 < 65536 → LoopWord opening closing opening (closing + 1)

/-- A word of a loop belongs to a loop instruction. -/
theorem Readable.LoopEnds.holdsLoop {region : Readable} {o c a v : Nat} (h : region.LoopEnds o c)
    (hword : LoopWord o c a v) : region.HoldsLoop a := by
  cases hword with
  | ofEnd => exact ⟨h.inside, Or.inr h.closes⟩
  | ofStart => exact ⟨Nat.lt_trans h.lt h.inside, Or.inl h.opens⟩

section Run

variable {σ μ : Type} {region : Readable} {w : Writable σ} {m : Monitor μ} {table : σ} {monitor : μ}
  {bytes : List UInt8} {opened : List Nat} {closed : List (Nat × Nat)} {s s' : Scan σ μ}

/-! ## Words of loops -/

/-- As long as a run goes well, it sends words of loops closed only. -/
theorem Went.exists_word_of_put (h : Went region w m table monitor bytes opened closed s)
    {put : UInt64 × List UInt8} (hput : put ∈ s.puts) :
    ∃ o c a v, region.LoopEnds o c ∧ LoopWord o c a v ∧
      put = Scan.wordPut (.ofNat a) (.ofNat v) := by
  rw [h.puts_eq] at hput
  obtain ⟨⟨o, c⟩, hclosed, hmem⟩ := List.mem_flatMap.1 hput
  have hm := h.course.mem_closed_iff.1 hclosed
  have hlt := hm.lt
  have hnear := h.closing_lt o c hclosed
  have hends : region.LoopEnds o c :=
    ⟨hlt, Nat.lt_of_lt_of_le hm.closing_lt_length h.length_le, h.read_eq hm.opens,
      h.read_eq hm.closes⟩
  rw [pairPuts, ofNat_succ, List.mem_cons, List.mem_singleton] at hmem
  rcases hmem with rfl | rfl
  · exact ⟨o, c, c, o, hends, .ofEnd (by omega), rfl⟩
  · exact ⟨o, c, o, c + 1, hends, .ofStart (by omega), rfl⟩

/-- The end of a loop that cannot be settled has sent no words but its own that fit. -/
theorem Settled.exists_word_of_put {o c : Nat} {cause : ResolutionError}
    (h : Settled w (.ofNat o) (.ofNat c) s (.error cause s')) (hoc : o < c)
    (hc : c + 1 < UInt64.size) {put : UInt64 × List UInt8} (hput : put ∈ s'.puts) :
    put ∈ s.puts ∨ ∃ a v, LoopWord o c a v ∧ put = Scan.wordPut (.ofNat a) (.ofNat v) := by
  have hstart : UInt64.ofNat o > Word.maxDestination ↔ 65535 < o :=
    ofNat_gt_maxDestination_iff (by omega)
  have hend : UInt64.ofNat c + 1 > Word.maxDestination ↔ 65535 ≤ c :=
    ofNat_succ_gt_maxDestination_iff hc
  cases h with
  | farStart => exact Or.inl hput
  | faultAtEnd hnear | farEnd hnear =>
    rw [hstart] at hnear
    rw [Scan.puts_wordSent, List.mem_append, List.mem_singleton] at hput
    exact hput.imp_right fun heq => ⟨c, o, .ofEnd (by omega), heq⟩
  | faultAtStart hnear _ hnear' =>
    rw [hstart] at hnear
    rw [hend] at hnear'
    rw [ofNat_succ, Scan.puts_wordSent, Scan.puts_wordSent, List.mem_append, List.mem_append,
      List.mem_singleton, List.mem_singleton] at hput
    rcases hput with (hput | heq) | heq
    · exact Or.inl hput
    · exact Or.inr ⟨c, o, .ofEnd (by omega), heq⟩
    · exact Or.inr ⟨o, c + 1, .ofStart (by omega), heq⟩

/-- Whatever happens, a scan sends only words of loops of which it has read both ends. -/
theorem exists_word_of_put {put : UInt64 × List UInt8}
    (hput : put ∈ (resolve region w m table monitor).puts) :
    ∃ o c a v, region.LoopEnds o c ∧ LoopWord o c a v ∧
      put = Scan.wordPut (.ofNat a) (.ofNat v) := by
  have hended := ended_resolve region w m table monitor
  generalize resolve region w m table monitor = outcome at hended hput
  cases hended with
  | tooSmall => exact absurd hput List.not_mem_nil
  | leftOpen _ hwent | finished _ hwent => exact hwent.exists_word_of_put (by simpa using hput)
  | @stopped bytes opened closed s s' cause _ hwent hlt hvisited =>
    rw [Outcome.puts_ofResult_error] at hput
    cases hvisited with
    | cancelled | unreadable | stray => exact hwent.exists_word_of_put (by simpa using hput)
    | closed _ hread hpeek hsettled =>
      obtain ⟨o, rest, rfl, rfl⟩ := hwent.eq_cons_of_peek? hpeek
      have hoc := hwent.course.opened_lt o (List.mem_cons_self ..)
      have hsize := region.size.toNat_lt_size
      rcases hsettled.exists_word_of_put hoc (by omega) hput with hput | ⟨a, v, hword, rfl⟩
      · exact hwent.exists_word_of_put (by simpa using hput)
      · -- the loop at whose end the scan stops is still open
        have hopen := (hwent.course.mem_opened_iff.1 (List.mem_cons_self ..)).2.1
        exact ⟨o, bytes.length, a, v, ⟨hoc, hlt, hwent.read_eq hopen, hread⟩, hword, rfl⟩

/-! ## Room for them -/

/-- A scan that writes at all has a table that claims two bytes for each instruction. -/
theorem resolve_fits {put : UInt64 × List UInt8}
    (hput : put ∈ (resolve region w m table monitor).puts) :
    2 * region.size.toNat ≤ (w.size table).toNat := by
  by_cases hsmall : w.size table / Word.size < region.size
  · rw [resolve, if_pos hsmall] at hput
    exact absurd hput List.not_mem_nil
  · rw [Word.div_size_lt_iff] at hsmall
    exact Nat.le_of_not_lt hsmall

/-- A word sent to a loop instruction covers the two bytes of its slot. -/
theorem covers_wordPut_iff {a i : Nat} (ha : 2 * a < UInt64.size) (destination : UInt64) :
    Covers (Scan.wordPut (.ofNat a) destination) i ↔ i / 2 = a := by
  show (UInt64.ofNat a * Word.size).toNat ≤ i ∧ i < (UInt64.ofNat a * Word.size).toNat + 2 ↔ _
  rw [Word.toNat_offset ha]
  omega

/-- **Frame.** Whatever the image answers, whoever watches and however the scan ends, a table that
leaves alone what it is not asked to write keeps its size and every byte outside of the slots of
loop instructions. -/
theorem resolve_frame {view : σ → Bytes} (hw : w.Confined view) (region : Readable) (m : Monitor μ)
    (table : σ) (monitor : μ) :
    (view (resolve region w m table monitor).table).size = (view table).size ∧
      ∀ i, ¬ region.HoldsLoop (i / 2) →
        (view (resolve region w m table monitor).table)[i]? = (view table)[i]? := by
  have hagree := hw.replay table (resolve region w m table monitor).puts
  rw [← table_eq_replay] at hagree
  refine ⟨hagree.size_eq, fun i hi => hagree.frame i fun put hput hcovers => hi ?_⟩
  obtain ⟨o, c, a, v, hends, hword, rfl⟩ := exists_word_of_put hput
  have hfits := resolve_fits hput
  have hloop := hends.holdsLoop hword
  have hlt := hloop.lt
  have htable := (w.size table).toNat_lt_size
  rw [covers_wordPut_iff (by omega)] at hcovers
  rwa [hcovers]

end Run

end LoopTable
