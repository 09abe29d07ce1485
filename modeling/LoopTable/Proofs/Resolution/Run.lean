import LoopTable.Proofs.Nesting.Course
import LoopTable.Proofs.Resolution.Step

/-!
# Runs of a scan

A run visits address after address until a visit ends it or the image does. `Went` builds the states
between two visits, one rule for each visit that goes well: the bytes read so far, the loops they
leave open and the loops they close stand beside the state. `Ended` lists the ways in which a whole
scan can end, each after some visits that went well, and `ended_resolve` says that there are no
others.

What holds between two visits follows by induction on `Went`; the laws here say what the stack, the
monitor and the list of writes are (`Went.addresses_eq`, `Went.monitor_eq`, `Went.puts_eq`).
-/

namespace LoopTable

/-! ## Monitors in the course of a scan -/

/-- The monitor after it was told of the work in all and of so many single pieces done. -/
def Monitor.after {μ : Type} (m : Monitor μ) (total : UInt64) (monitor : μ) : Nat → μ
  | 0 => m.start total monitor
  | n + 1 => m.advance 1 (m.after total monitor n)

/-- The monitor asks to stop at none of the polls of a scan over so many instructions. -/
def Monitor.Quiet {μ : Type} (m : Monitor μ) (total : UInt64) (monitor : μ) : Prop :=
  ∀ n < total.toNat, m.isCancelled (m.after total monitor n) = false

theorem Monitor.quiet_silent (total : UInt64) : Monitor.silent.Quiet total () :=
  fun _ _ => rfl

/-! ## Several visits in a row -/

namespace Scan

variable {σ μ : Type} {image : Readable} {w : Writable σ} {m : Monitor μ}

theorem run_visitAll_succ (n : Nat) (a : UInt64) (s : Scan σ μ) :
    (visitAll image w m (n + 1) a).run s = match (visit image w m a).run s with
      | .ok _ s' => (visitAll image w m n (a + 1)).run s'
      | .error e s' => .error e s' := by
  rw [visitAll, EStateM.run_bind]
  cases (visit image w m a).run s <;> rfl

/-- Visits that go well can be made in two parts. -/
theorem run_visitAll_add (n k : Nat) (a : UInt64) (s : Scan σ μ) :
    (visitAll image w m (n + k) a).run s = match (visitAll image w m n a).run s with
      | .ok _ s' => (visitAll image w m k (a + UInt64.ofNat n)).run s'
      | .error e s' => .error e s' := by
  induction n generalizing a s with
  | zero =>
    show _ = (visitAll image w m k (a + 0)).run s
    rw [Nat.zero_add, UInt64.add_zero]
  | succ n ih =>
    rw [Nat.add_right_comm, run_visitAll_succ, run_visitAll_succ]
    cases (visit image w m a).run s with
    | error e s' => rfl
    | ok _ s' =>
      show (visitAll image w m (n + k) (a + 1)).run s' = _
      rw [ih, UInt64.ofNat_add, UInt64.add_assoc, UInt64.add_comm 1]
      rfl

/-- Visits end in a failure when one of them does, after others that went well. -/
theorem exists_failed_visit {n : Nat} {a : UInt64} {s s' : Scan σ μ} {e : ResolutionError}
    (h : (visitAll image w m n a).run s = .error e s') :
    ∃ k < n, ∃ s₁, (visitAll image w m k a).run s = .ok () s₁ ∧
      (visit image w m (a + UInt64.ofNat k)).run s₁ = .error e s' := by
  induction n generalizing a s with
  | zero => cases h
  | succ n ih =>
    rw [run_visitAll_succ] at h
    cases hvisit : (visit image w m a).run s with
    | error e₁ s₁ =>
      rw [hvisit] at h
      refine ⟨0, Nat.zero_lt_succ n, s, rfl, ?_⟩
      show (visit image w m (a + 0)).run s = _
      rw [UInt64.add_zero, hvisit]
      exact h
    | ok u s₁ =>
      rw [hvisit] at h
      obtain ⟨k, hk, s₂, hrun, hfail⟩ := ih h
      refine ⟨k + 1, Nat.succ_lt_succ hk, s₂, ?_, ?_⟩
      · rw [run_visitAll_succ, hvisit]
        exact hrun
      · rw [UInt64.ofNat_add, UInt64.add_comm (UInt64.ofNat k), ← UInt64.add_assoc]
        exact hfail

/-- Once the monitor knows the amount of work and the start is logged. -/
def begun (image : Readable) (m : Monitor μ) (table : σ) (monitor : μ) : Scan σ μ where
  table := table
  monitor := m.start image.size monitor
  pending := .empty
  pairs := 0
  events := (#[].push (.started image.size)).push (.logged (.scanStarted image.size))

theorem run_whole (table : σ) (monitor : μ) :
    (whole image w m).run (.initial table monitor) =
      match (visitAll image w m image.size.toNat 0).run (begun image m table monitor) with
      | .ok _ s => (conclude image.size).run s
      | .error e s => .error e s := by
  simp only [whole, start, note, initial, EStateM.run_bind, EStateM.run_modify]
  rw [← begun]
  cases (visitAll image w m image.size.toNat 0).run (begun image m table monitor) <;> rfl

theorem run_conclude (n : UInt64) (s : Scan σ μ) :
    (conclude n).run s = match s.pending.oldest? with
      | some oldest => .error (.unmatched (some oldest))
          (s.noted (.logged (.leftOpen s.pending.depth oldest)))
      | none => .ok ⟨n, s.pairs, s.pending.maxDepth⟩
          (s.noted (.logged (.scanFinished s.pairs s.pending.maxDepth))) := by
  cases h : s.pending.oldest? with
  | none =>
    simp only [conclude, note, EStateM.run_bind, EStateM.run_get, h, EStateM.run_modify]
    rfl
  | some oldest =>
    simp only [conclude, note, EStateM.run_bind, EStateM.run_get, h, EStateM.run_modify]
    rfl

end Scan

/-! ## Visits that went well -/

/-- The writes that the end of a loop asks for: its own word, then the word of the start. -/
def pairPuts : Nat × Nat → List (UInt64 × List UInt8)
  | (o, c) => [Scan.wordPut (.ofNat c) (.ofNat o), Scan.wordPut (.ofNat o) (.ofNat c + 1)]

section Went

variable {σ μ : Type}

/-- The states of a scan between two visits: the bytes read so far, the loops they leave open and
those they close, and the state itself. The address that is visited next is the number of bytes
read. -/
inductive Went (image : Readable) (w : Writable σ) (m : Monitor μ) (table : σ) (monitor : μ) :
    List UInt8 → List Nat → List (Nat × Nat) → Scan σ μ → Prop
  /-- Nothing has been visited. -/
  | start : Went image w m table monitor [] [] [] (.begun image m table monitor)
  /-- A byte that is no part of a loop. -/
  | inert {bytes : List UInt8} {byte : UInt8} {opened : List Nat} {closed : List (Nat × Nat)}
      {s : Scan σ μ} : Went image w m table monitor bytes opened closed s →
      bytes.length < image.size.toNat → m.isCancelled s.monitor = false →
      image.read (.ofNat bytes.length) = .ok byte → IsInert byte →
      Went image w m table monitor (bytes ++ [byte]) opened closed
        (s.asked m (.ofNat bytes.length))
  /-- A loop is opened. -/
  | opened {bytes : List UInt8} {opened : List Nat} {closed : List (Nat × Nat)} {s : Scan σ μ} :
      Went image w m table monitor bytes opened closed s →
      bytes.length < image.size.toNat → m.isCancelled s.monitor = false →
      image.read (.ofNat bytes.length) = .ok openByte →
      Went image w m table monitor (bytes ++ [openByte]) (bytes.length :: opened) closed
        ((s.asked m (.ofNat bytes.length)).opened (.ofNat bytes.length))
  /-- The innermost open loop is closed, and both of its words are accepted. -/
  | closed {bytes : List UInt8} {o : Nat} {opened : List Nat} {closed : List (Nat × Nat)}
      {s s' : Scan σ μ} : Went image w m table monitor bytes (o :: opened) closed s →
      bytes.length < image.size.toNat → m.isCancelled s.monitor = false →
      image.read (.ofNat bytes.length) = .ok closeByte →
      Settled w (.ofNat o) (.ofNat bytes.length) (s.asked m (.ofNat bytes.length)).taken
        (.ok () s') →
      Went image w m table monitor (bytes ++ [closeByte]) opened (closed ++ [(o, bytes.length)]) s'

namespace Went

variable {image : Readable} {w : Writable σ} {m : Monitor μ} {table : σ} {monitor : μ}
  {bytes : List UInt8} {opened : List Nat} {closed : List (Nat × Nat)} {s s' : Scan σ μ}

theorem course (h : Went image w m table monitor bytes opened closed s) :
    Course bytes opened closed := by
  induction h with
  | start => exact .nil
  | inert _ _ _ _ hb ih => exact ih.inert hb
  | opened _ _ _ _ ih => exact ih.opened
  | closed _ _ _ _ _ ih => exact ih.closed

theorem length_le (h : Went image w m table monitor bytes opened closed s) :
    bytes.length ≤ image.size.toNat := by
  cases h with
  | start => exact Nat.zero_le _
  | inert _ hlt | opened _ hlt | closed _ hlt =>
    rw [List.length_append, List.length_singleton]
    exact hlt

/-- What has been read is what the region answers. -/
theorem read_eq (h : Went image w m table monitor bytes opened closed s) {i : Nat} {byte : UInt8}
    (hi : bytes[i]? = some byte) : image.read (.ofNat i) = .ok byte := by
  induction h with
  | start => simp at hi
  | inert _ _ _ hread _ ih | opened _ _ _ hread ih | closed _ _ _ hread _ ih =>
    rcases getElem?_snoc_eq_some_iff.1 hi with hi | ⟨rfl, rfl⟩
    · exact ih hi
    · exact hread

/-- The monitor has been told of every visit. -/
theorem monitor_eq (h : Went image w m table monitor bytes opened closed s) :
    s.monitor = m.after image.size monitor bytes.length := by
  induction h with
  | start => rfl
  | inert _ _ _ _ _ ih | opened _ _ _ _ ih => simp [Monitor.after, ← ih]
  | closed _ _ _ _ hsettled ih =>
    cases hsettled with
    | done => simp [Monitor.after, ← ih]

/-- No poll so far has asked to stop. -/
theorem polls (h : Went image w m table monitor bytes opened closed s) :
    ∀ n < bytes.length, m.isCancelled (m.after image.size monitor n) = false := by
  induction h with
  | start => intro n hn; exact absurd hn (Nat.not_lt_zero n)
  | inert hwent _ hpoll _ _ ih | opened hwent _ hpoll _ ih | closed hwent _ hpoll _ _ ih =>
    intro n hn
    rw [List.length_append, List.length_singleton] at hn
    rcases Nat.lt_succ_iff_lt_or_eq.1 hn with hn | rfl
    · exact ih n hn
    · rw [← hwent.monitor_eq]
      exact hpoll

/-- The stack holds the open loops, the outermost at the bottom. -/
theorem addresses_eq (h : Went image w m table monitor bytes opened closed s) :
    s.pending.addresses = (opened.reverse.map UInt64.ofNat).toArray := by
  induction h with
  | start => rfl
  | inert _ _ _ _ _ ih => simpa using ih
  | opened _ _ _ _ ih => simp [ih]
  | closed _ _ _ _ hsettled ih =>
    cases hsettled with
    | done => simp [ih]

/-- On top of the stack is the innermost open loop. -/
theorem peek?_eq (h : Went image w m table monitor bytes opened closed s) :
    s.pending.peek? = opened.head?.map UInt64.ofNat := by
  rw [Pending.peek?, h.addresses_eq]
  simp

/-- At the bottom of the stack is the outermost open loop. -/
theorem oldest?_eq (h : Went image w m table monitor bytes opened closed s) :
    s.pending.oldest? = opened.getLast?.map UInt64.ofNat := by
  rw [Pending.oldest?, h.addresses_eq, List.getElem?_toArray, ← List.head?_eq_getElem?,
    List.head?_map, List.head?_reverse]

/-- The writes asked for are both words of every loop closed. -/
theorem puts_eq (h : Went image w m table monitor bytes opened closed s) :
    s.puts = closed.flatMap pairPuts := by
  induction h with
  | start => rfl
  | inert _ _ _ _ _ ih => simpa using ih
  | opened _ _ _ _ ih => simpa using ih
  | closed _ _ _ _ hsettled ih =>
    cases hsettled with
    | done => simp [ih, pairPuts]

theorem eq_cons_of_peek? (h : Went image w m table monitor bytes opened closed s) {a : UInt64}
    (ha : s.pending.peek? = some a) : ∃ o rest, opened = o :: rest ∧ a = .ofNat o := by
  rw [h.peek?_eq] at ha
  cases opened with
  | nil => cases ha
  | cons o rest => exact ⟨o, rest, rfl, (Option.some.inj ha).symm⟩

/-- One more visit that goes well. -/
theorem next (h : Went image w m table monitor bytes opened closed s)
    (hlt : bytes.length < image.size.toNat)
    (hvisited : Visited image w m (.ofNat bytes.length) s (.ok () s')) :
    ∃ byte opened' closed', Went image w m table monitor (bytes ++ [byte]) opened' closed' s' := by
  cases hvisited with
  | inert hpoll hread hopen hclose => exact ⟨_, _, _, h.inert hlt hpoll hread ⟨hopen, hclose⟩⟩
  | opened hpoll hread => exact ⟨_, _, _, h.opened hlt hpoll hread⟩
  | closed hpoll hread hpeek hsettled =>
    obtain ⟨o, rest, rfl, rfl⟩ := h.eq_cons_of_peek? hpeek
    exact ⟨_, _, _, h.closed hlt hpoll hread hsettled⟩

end Went

/-- Visits in a row that all go well lead to a state between two visits. -/
theorem went_of_run {image : Readable} {w : Writable σ} {m : Monitor μ} {table : σ} {monitor : μ}
    {n : Nat} (hn : n ≤ image.size.toNat) {s : Scan σ μ}
    (h : (Scan.visitAll image w m n 0).run (.begun image m table monitor) = .ok () s) :
    ∃ bytes opened closed, bytes.length = n ∧
      Went image w m table monitor bytes opened closed s := by
  induction n generalizing s with
  | zero =>
    cases h
    exact ⟨[], [], [], rfl, .start⟩
  | succ n ih =>
    rw [Scan.run_visitAll_add n 1] at h
    cases hrun : (Scan.visitAll image w m n 0).run (.begun image m table monitor) with
    | error e s₁ => rw [hrun] at h; cases h
    | ok u s₁ =>
      rw [hrun] at h
      obtain ⟨bytes, opened, closed, rfl, hwent⟩ := ih (Nat.le_of_succ_le hn) hrun
      have hvisit := Scan.visited_visit image w m (.ofNat bytes.length) s₁
      rw [UInt64.zero_add] at h
      have hone : (Scan.visit image w m (.ofNat bytes.length)).run s₁ = .ok () s := by
        simp only [Scan.run_visitAll_succ] at h
        cases hv : (Scan.visit image w m (.ofNat bytes.length)).run s₁ with
        | error e s₂ => rw [hv] at h; cases h
        | ok u s₂ => rw [hv] at h; exact h
      rw [hone] at hvisit
      obtain ⟨byte, opened', closed', hnext⟩ := hwent.next hn hvisit
      exact ⟨bytes ++ [byte], opened', closed', by simp, hnext⟩

/-! ## Ends of a scan -/

@[simp] theorem Outcome.puts_ofResult_error (cause : ResolutionError) (s : Scan σ μ) :
    (ofResult (.error cause s)).puts = s.puts := rfl

@[simp] theorem Outcome.puts_ofResult_ok (statistics : Statistics) (s : Scan σ μ) :
    (ofResult (.ok statistics s)).puts = s.puts := rfl

/-- How a whole scan can end. -/
inductive Ended (image : Readable) (w : Writable σ) (m : Monitor μ) (table : σ) (monitor : μ) :
    Outcome σ μ → Prop
  /-- The table claims to have fewer words than the image claims to have instructions. -/
  | tooSmall : w.size table / Word.size < image.size →
      Ended image w m table monitor
        ⟨.error (.tableTooSmall image.size (w.size table)), table, monitor, []⟩
  /-- A visit fails after others that went well. -/
  | stopped {bytes : List UInt8} {opened : List Nat} {closed : List (Nat × Nat)}
      {s s' : Scan σ μ} {cause : ResolutionError} : ¬ w.size table / Word.size < image.size →
      Went image w m table monitor bytes opened closed s → bytes.length < image.size.toNat →
      Visited image w m (.ofNat bytes.length) s (.error cause s') →
      Ended image w m table monitor (.ofResult (.error cause s'))
  /-- All visits go well, and a loop is left open. -/
  | leftOpen {bytes : List UInt8} {opened : List Nat} {o : Nat} {closed : List (Nat × Nat)}
      {s : Scan σ μ} : ¬ w.size table / Word.size < image.size →
      Went image w m table monitor bytes (opened ++ [o]) closed s →
      bytes.length = image.size.toNat →
      Ended image w m table monitor (.ofResult (.error (.unmatched (some (.ofNat o)))
        (s.noted (.logged (.leftOpen s.pending.depth (.ofNat o))))))
  /-- All visits go well, and no loop is left open. -/
  | finished {bytes : List UInt8} {closed : List (Nat × Nat)} {s : Scan σ μ} :
      ¬ w.size table / Word.size < image.size →
      Went image w m table monitor bytes [] closed s → bytes.length = image.size.toNat →
      Ended image w m table monitor
        (.ofResult (.ok ⟨image.size, s.pairs, s.pending.maxDepth⟩
          (s.noted (.logged (.scanFinished s.pairs s.pending.maxDepth)))))

/-- A scan ends in one of the ways listed. -/
theorem ended_resolve (image : Readable) (w : Writable σ) (m : Monitor μ) (table : σ)
    (monitor : μ) : Ended image w m table monitor (resolve image w m table monitor) := by
  rw [resolve]
  by_cases hsize : w.size table / Word.size < image.size
  · rw [if_pos hsize]
    exact .tooSmall hsize
  · rw [if_neg hsize, Scan.run_whole]
    cases hrun : (Scan.visitAll image w m image.size.toNat 0).run
      (.begun image m table monitor) with
    | error e s' =>
      obtain ⟨k, hk, s, hwell, hfail⟩ := Scan.exists_failed_visit hrun
      obtain ⟨bytes, opened, closed, rfl, hwent⟩ := went_of_run (Nat.le_of_lt hk) hwell
      rw [UInt64.zero_add] at hfail
      exact .stopped hsize hwent hk (hfail ▸ Scan.visited_visit image w m _ s)
    | ok u s =>
      obtain ⟨bytes, opened, closed, hlength, hwent⟩ := went_of_run (Nat.le_refl _) hrun
      show Ended image w m table monitor (.ofResult ((Scan.conclude image.size).run s))
      rw [Scan.run_conclude, hwent.oldest?_eq]
      rcases List.eq_nil_or_concat opened with rfl | ⟨inner, o, rfl⟩
      · exact .finished hsize hwent hlength
      · rw [List.concat_eq_append] at hwent ⊢
        rw [List.getLast?_concat]
        exact .leftOpen hsize hwent hlength

/-- A scan whose monitor asks to stop at no poll is not cancelled. -/
theorem result_ne_cancelled {image : Readable} {m : Monitor μ} {monitor : μ}
    (hquiet : m.Quiet image.size monitor) (w : Writable σ) (table : σ) :
    (resolve image w m table monitor).result ≠ .error .cancelled := by
  have hended := ended_resolve image w m table monitor
  generalize resolve image w m table monitor = outcome at hended ⊢
  intro hresult
  cases hended with
  | tooSmall | leftOpen | finished => cases hresult
  | stopped _ hwent hlt hvisited =>
    cases hresult
    cases hvisited with
    | cancelled hpoll =>
      rw [hwent.monitor_eq, hquiet _ hlt] at hpoll
      cases hpoll
    | closed _ _ _ hsettled => cases hsettled

end Went

end LoopTable
