import LoopTable.Proofs.Resolution.Coverage
import LoopTable.Proofs.Resolution.Footprint

/-!
# Faults in the course of a scan

A scan rolls nothing back. Yet a fault never leaves a loop with one of its two words written: the
end of a loop stands behind its start, and its word is sent first. So a table that refuses every
write behind one that it refuses either takes both words or refuses the first of them.

* `Writable.FaultsUpwards` is what is asked of the table. Plain bytes and memory blocks are such,
  under any claimed size and with a fault injected from some offset on.
* `Settled.fault_at_end` says that the word of a start is never refused.
* `Faulted` says what a scan leaves that meets a fault, and `fault_never_tears` that every such scan
  does.
-/

namespace LoopTable

/-! ## Tables that refuse from some offset on -/

/-- A region stores what it accepts and nothing else, and refuses with one write every write of that
length behind it, as long as its size is the same. -/
structure Writable.FaultsUpwards {σ : Type} (w : Writable σ) (view : σ → Bytes) : Prop
    extends w.Faithful view where
  /-- A write behind one that is refused is refused. -/
  upwards : ∀ offset data s fault offset' data' s', (w.put offset data s).1 = .error fault →
    offset ≤ offset' → data'.length = data.length → (view s').size = (view s).size →
    ∃ fault', (w.put offset' data' s').1 = .error fault'

namespace Writable

variable {σ : Type} {w : Writable σ} {view : σ → Bytes}

theorem Honest.faultsUpwards (hw : w.Honest view) : w.FaultsUpwards view where
  toFaithful := hw.faithful
  upwards := by
    intro offset data s fault offset' data' s' hfault hle hlength hsize
    have hout : ¬ offset.toNat + data.length ≤ (view s).size := by
      rw [← hw.answer_eq_ok_iff, hfault]
      exact fun heq => by cases heq
    rw [UInt64.le_iff_toNat_le] at hle
    rw [hw.answer_eq, Bytes.put_of_lt (by omega)]
    exact ⟨_, rfl⟩

namespace FaultsUpwards

/-- The size that is claimed makes no difference. -/
theorem claiming (hw : w.FaultsUpwards view) (size : UInt64) :
    (w.claiming size).FaultsUpwards view :=
  ⟨⟨hw.inside, hw.accepted, hw.refused⟩, hw.upwards⟩

/-- Nor does a fault injected from some offset on. -/
theorem failingFrom (hw : w.FaultsUpwards view) (start : UInt64) (injected : Fault) :
    (w.failingFrom start injected).FaultsUpwards view where
  inside := by
    intro offset data s hok
    by_cases hstart : start ≤ offset
    · simp [Writable.failingFrom, hstart] at hok
    · exact hw.inside offset data s (by simpa [Writable.failingFrom, hstart] using hok)
  accepted := by
    intro offset data s hok
    by_cases hstart : start ≤ offset
    · simp [Writable.failingFrom, hstart] at hok
    · simp only [Writable.failingFrom, hstart, if_false] at hok ⊢
      exact hw.accepted offset data s hok
  refused := by
    intro offset data s fault hfault
    by_cases hstart : start ≤ offset
    · simp [Writable.failingFrom, hstart]
    · simp only [Writable.failingFrom, hstart, if_false] at hfault ⊢
      exact hw.refused offset data s fault hfault
  upwards := by
    intro offset data s fault offset' data' s' hfault hle hlength hsize
    by_cases hstart' : start ≤ offset'
    · exact ⟨injected, by simp [Writable.failingFrom, hstart']⟩
    · have hstart : ¬ start ≤ offset := fun h => hstart' (UInt64.le_trans h hle)
      simp only [Writable.failingFrom, hstart, hstart', if_false] at hfault ⊢
      exact hw.upwards offset data s fault offset' data' s' hfault hle hlength hsize

end FaultsUpwards

end Writable

/-! ## The word of a start is never refused -/

section Run

variable {σ μ : Type} {region : Readable} {w : Writable σ} {view : σ → Bytes} {m : Monitor μ}
  {table : σ} {monitor : μ} {image : Bytes} {bytes : List UInt8} {opened : List Nat}
  {closed : List (Nat × Nat)} {s s' : Scan σ μ} {fault : Fault}

/-- A fault at the end of a loop is the answer to the word of the end, which was sent first. -/
theorem Settled.fault_at_end {o c : Nat}
    (h : Settled w (.ofNat o) (.ofNat c) s (.error (.memory fault) s')) (hw : w.FaultsUpwards view)
    (hoc : o < c) (hc : 2 * c < UInt64.size) :
    s.wordAnswer w (.ofNat c) (.ofNat o) = .error fault ∧
      s' = s.wordSent w (.ofNat c) (.ofNat o) := by
  cases h with
  | faultAtEnd _ hfault => exact ⟨hfault, rfl⟩
  | faultAtStart _ hend _ hfault =>
    -- The word of the end went through at a higher offset, so this one cannot be refused.
    have hoffset : UInt64.ofNat o * Word.size ≤ UInt64.ofNat c * Word.size := by
      rw [UInt64.le_iff_toNat_le, Word.toNat_offset (by omega), Word.toNat_offset hc]
      omega
    have hsize : (view s.table).size =
        (view (s.wordSent w (.ofNat c) (.ofNat o)).table).size := by
      rw [Scan.wordSent, hw.accepted _ _ _ hend, Bytes.size_overwrite]
    obtain ⟨fault', hrefused⟩ :=
      hw.upwards _ _ _ _ _ (Word.encode (UInt64.ofNat o).toUInt16) s.table hfault hoffset rfl hsize
    rw [Scan.wordAnswer, hrefused] at hend
    cases hend

/-! ## What a fault leaves behind -/

/-- The call at an address of an image that is answered with a fault. -/
inductive FaultyCall (image : List UInt8) (region : Readable) (w : Writable σ) (held : σ) (a : Nat)
    (fault : Fault) : Event → Prop
  /-- The byte there is not answered. -/
  | read : region.read (.ofNat a) = .error fault →
      FaultyCall image region w held a fault (.read (.ofNat a))
  /-- A loop ends there, and the word of the end is refused. -/
  | put {o : Nat} {offset : UInt64} {data : List UInt8} : Matched image o a →
      (offset, data) = Scan.wordPut (.ofNat a) (.ofNat o) →
      (w.put offset data held).1 = .error fault →
      FaultyCall image region w held a fault (.put offset data)

/-- A scan has met a fault at address `a`. -/
structure Faulted (image : List UInt8) (region : Readable) (w : Writable σ) (view : σ → Bytes)
    (table : σ) (outcome : Outcome σ μ) (fault : Fault) (a : Nat) : Prop where
  /-- It has asked for the bytes up to that address. -/
  reads_eq : outcome.reads = (List.range (a + 1)).map UInt64.ofNat
  /-- Its last call is one at that address, and was answered with the fault. -/
  last : ∃ before event, outcome.events = before ++ [event] ∧
    FaultyCall image region w (w.replay table (before.filterMap Event.put?)) a fault event
  /-- The words of the loops closed before the address are rewritten and nothing else. -/
  rewritten : Bytes.Rewritten (view table) (view outcome.table) (Destination image a)
  /-- Of every loop both words are written, or neither. -/
  whole : ∀ o c, Matched image o c →
    (c < a ∧ (view outcome.table).HoldsWord c o ∧ (view outcome.table).HoldsWord o (c + 1)) ∨
    (a ≤ c ∧ ∀ i, i / 2 = o ∨ i / 2 = c → (view outcome.table)[i]? = (view table)[i]?)

/-- Where a word is called for at an end of a loop, it is a word of that loop. -/
theorem Destination.closing_lt {image : List UInt8} {bound a v o c : Nat}
    (h : Destination image bound a v) (hm : Matched image o c) (ha : a = o ∨ a = c) :
    c < bound := by
  obtain ⟨o', c', hm', hlt, ⟨rfl, -⟩ | ⟨rfl, -⟩⟩ := h
  · rcases ha with rfl | rfl
    · -- no address both starts and ends a loop
      exact absurd (Option.some.inj (hm.opens.symm.trans hm'.closes)) openByte_ne_closeByte
    · exact hlt
  · rcases ha with rfl | rfl
    · exact hm.closing_unique hm' ▸ hlt
    · exact absurd (Option.some.inj (hm'.opens.symm.trans hm.closes)) openByte_ne_closeByte

/-- A table in which the words of all loops closed before an address are rewritten holds both words
of a loop or neither. -/
theorem Bytes.Rewritten.whole {image : List UInt8} {before after : Bytes} {a o c : Nat}
    (h : Rewritten before after (Destination image a)) (hm : Matched image o c) :
    (c < a ∧ after.HoldsWord c o ∧ after.HoldsWord o (c + 1)) ∨
      (a ≤ c ∧ ∀ i, i / 2 = o ∨ i / 2 = c → after[i]? = before[i]?) := by
  rcases Nat.lt_or_ge c a with hlt | hge
  · refine Or.inl ⟨hlt, h.holds _ _ ⟨o, c, hm, hlt, Or.inl ⟨rfl, rfl⟩⟩, ?_⟩
    exact h.holds _ _ ⟨o, c, hm, hlt, Or.inr ⟨rfl, rfl⟩⟩
  · refine Or.inr ⟨hge, fun i hi => h.frame i fun v hv => ?_⟩
    exact Nat.not_lt.2 hge (hv.closing_lt hm hi)

/-- The address at whose visit a fault is met. -/
theorem Visited.faulted (hwent : Went region w m table monitor bytes opened closed s)
    (hlt : bytes.length < region.size.toNat) (hr : region.Reflects image)
    (hw : w.FaultsUpwards view) (hsize : 2 * region.size.toNat < UInt64.size)
    (h : Visited region w m (.ofNat bytes.length) s (.error (.memory fault) s')) :
    Faulted image.toList region w view table (Outcome.ofResult (.error (.memory fault) s')) fault
      bytes.length := by
  have hpassed := hwent.passed hr
  have hreads : s'.reads = (List.range (bytes.length + 1)).map UInt64.ofNat := by
    rw [map_ofNat_range_succ, ← hwent.reads_eq]
    exact (h.reads_eq fun heq => by cases heq).2
  have hbefore : Bytes.Rewritten (view table) (view s.table)
      (Destination image.toList bytes.length) :=
    (hwent.rewritten hw.toFaithful hsize).congr fun a v => hpassed.course.calledFor_iff
  cases h with
  | unreadable _ hread =>
    refine ⟨hreads, ⟨_, _, s.events_asked m _, .read hread⟩, hbefore, fun o c hm => ?_⟩
    exact hbefore.whole hm
  | closed _ hread hpeek hsettled =>
    obtain ⟨o, rest, rfl, rfl⟩ := hwent.eq_cons_of_peek? hpeek
    have hasked := (hwent.answered.asked m hread).taken
    obtain ⟨hfault, rfl⟩ := hsettled.fault_at_end hw
      (hwent.course.opened_lt o (List.mem_cons_self ..)) (by omega)
    have hclose := hr _ _ hread
    rw [UInt64.toNat_ofNat_of_lt' (by omega), ← Array.getElem?_toList] at hclose
    -- The word of the end is refused, so it changes nothing.
    have hafter := hbefore
    rw [← show view _ = view s.table from hw.refused _ _ _ _ hfault] at hafter
    refine ⟨hreads, ⟨_, _, Array.toList_push, ?_⟩, hafter, fun o c hm => hafter.whole hm⟩
    refine .put (hpassed.matched_next hclose) rfl ?_
    rw [Scan.wordAnswer, hasked.table_eq] at hfault
    exact hfault

/-- **No torn pairs.** Let a region answer with the bytes of an image wherever it answers, and let a
table refuse with one write every write behind it and store nothing that it refuses. If a scan ends
with a fault, this is the answer to its last call. Both words are written of every loop closed
before the address of that call, and neither word of any other loop. -/
theorem fault_never_tears (hr : region.Reflects image) (hw : w.FaultsUpwards view)
    (hresult : (resolve region w m table monitor).result = .error (.memory fault)) :
    ∃ a, Faulted image.toList region w view table (resolve region w m table monitor) fault a := by
  have hended := ended_resolve region w m table monitor
  generalize resolve region w m table monitor = outcome at hended hresult ⊢
  cases hended with
  | tooSmall | leftOpen | finished => cases hresult
  | @stopped bytes opened closed s s' cause hroom hwent hlt hvisited =>
    cases hresult
    rw [Word.div_size_lt_iff] at hroom
    have hsize := (w.size table).toNat_lt_size
    exact ⟨bytes.length, hvisited.faulted hwent hlt hr hw (by omega)⟩

/-- Two loops in a table that claims more bytes than it has and refuses all from the fifth one on:
the first loop is written, the second one is not. -/
theorem fault_never_tears_second_loop :
    let image : Bytes := #[6, 7, 6, 7]
    let region := (Readable.ofBytes image).claiming 5
    let w := (Writable.bytes.failingFrom 4 .isDirectory).claiming 64
    let outcome := resolve region w .silent (Bytes.zeros 8) ()
    outcome.result = .error (.memory .isDirectory) ∧
      ∃ a, Faulted image.toList region w id (Bytes.zeros 8) outcome .isDirectory a := by
  have hr : ((Readable.ofBytes #[6, 7, 6, 7]).claiming 5).Reflects #[6, 7, 6, 7] :=
    (Readable.reflects_ofBytes _).claiming 5
  have hw : ((Writable.bytes.failingFrom 4 .isDirectory).claiming 64).FaultsUpwards id :=
    (Writable.honest_bytes.faultsUpwards.failingFrom 4 _).claiming 64
  exact ⟨rfl, fault_never_tears hr hw rfl⟩

end Run

end LoopTable
