import LoopTable.Proofs.Resolution.Run

/-!
# Polls in the course of a scan

A scan polls its monitor once at each address, after one more piece of work than at the address
before. So the answers to all polls are known before the scan begins (`Monitor.after`).

* `Monitor.FirstStop` is the first address whose poll asks to stop; a monitor without one is quiet
  (`Monitor.quiet_iff`).
* `Monitor.Counts` says that a monitor counts the work as a `Progress` does, whatever else it does.
  At the poll of an address such a monitor has counted the addresses before it
  (`Monitor.Counts.after_eq`).
* `Monitor.firstStop_taskUntil_iff` says where a monitor stops that cancels itself by counting.
-/

namespace LoopTable

namespace Monitor

variable {μ : Type} {m : Monitor μ} {total : UInt64} {monitor : μ}

/-! ## The first poll that asks to stop -/

/-- The first poll of a scan that asks to stop is the one at address `k`. -/
structure FirstStop (m : Monitor μ) (total : UInt64) (monitor : μ) (k : Nat) : Prop where
  /-- The address is scanned. -/
  lt : k < total.toNat
  /-- Its poll asks to stop. -/
  stops : m.isCancelled (m.after total monitor k) = true
  /-- No poll before it does. -/
  before : ∀ n < k, m.isCancelled (m.after total monitor n) = false

theorem FirstStop.unique {k k' : Nat} (h : m.FirstStop total monitor k)
    (h' : m.FirstStop total monitor k') : k = k' := by
  rcases Nat.lt_trichotomy k k' with hlt | heq | hgt
  · exact absurd h.stops (by rw [h'.before k hlt]; exact Bool.false_ne_true)
  · exact heq
  · exact absurd h'.stops (by rw [h.before k' hgt]; exact Bool.false_ne_true)

/-- Where the answer is not to stop, the first poll that asks to stop has not been reached. -/
theorem FirstStop.le {k n : Nat} (h : m.FirstStop total monitor k)
    (hn : ∀ i < n, m.isCancelled (m.after total monitor i) = false) : n ≤ k := by
  refine Nat.le_of_not_lt fun hlt => ?_
  exact absurd h.stops (by rw [hn k hlt]; exact Bool.false_ne_true)

/-- A monitor is quiet when no poll is the first that asks to stop. -/
theorem quiet_iff : m.Quiet total monitor ↔ ∀ k, ¬ m.FirstStop total monitor k := by
  constructor
  · intro hquiet k hk
    exact Nat.not_lt.2 (hk.le hquiet) hk.lt
  · intro hnever n
    induction n using Nat.strongRecOn with
    | ind n ih =>
      intro hn
      refine Bool.eq_false_iff.2 fun hstops => hnever n ⟨hn, hstops, fun i hi => ?_⟩
      exact ih i hi (Nat.lt_trans hi hn)

/-! ## Monitors that count -/

/-- A monitor counts the work as a progress does, whatever else it keeps and decides. -/
structure Counts (m : Monitor μ) (progress : μ → Progress) : Prop where
  /-- The amount of work in all is noted, and nothing is done yet. -/
  start : ∀ n s, progress (m.start n s) = (progress s).start n
  /-- Work done is added. -/
  advance : ∀ n s, progress (m.advance n s) = (progress s).advance n

theorem counts_task : Monitor.task.Counts Prod.fst :=
  ⟨fun _ _ => rfl, fun _ _ => rfl⟩

theorem counts_taskUntil (limit : UInt64) : (Monitor.taskUntil limit).Counts Prod.fst :=
  ⟨fun _ _ => rfl, fun _ _ => rfl⟩

theorem addSaturating_one {n : Nat} (h : n + 1 < UInt64.size) :
    addSaturating (.ofNat n) 1 = .ofNat (n + 1) := by
  rw [addSaturating, UInt64.toNat_ofNat_of_lt' (by omega), UInt64.toNat_one,
    Nat.min_eq_right (by omega)]

/-- A monitor that counts has counted the single pieces of work done so far. -/
theorem Counts.after_eq {progress : μ → Progress} (h : m.Counts progress) (total : UInt64)
    (monitor : μ) {n : Nat} (hn : n < UInt64.size) :
    progress (m.after total monitor n) = ⟨total, .ofNat n, (progress monitor).token⟩ := by
  induction n with
  | zero =>
    rw [after, h.start]
    rfl
  | succ n ih =>
    rw [after, h.advance, ih (Nat.lt_of_succ_lt hn), Progress.advance, addSaturating_one hn]

/-! ## A monitor that cancels itself -/

variable {limit : UInt64} {p : Progress} {pool : TokenPool}

/-- One piece of work more, for a monitor that cancels itself. -/
theorem advance_taskUntil {n : Nat} (hn : n + 1 < UInt64.size) (total : UInt64) (token : Token)
    (pool : TokenPool) :
    (taskUntil limit).advance 1 (⟨total, .ofNat n, token⟩, pool) =
      (⟨total, .ofNat (n + 1), token⟩,
        if limit.toNat ≤ n + 1 then pool.cancel token else pool) := by
  have hreached : limit ≤ .ofNat (n + 1) ↔ limit.toNat ≤ n + 1 := by
    rw [UInt64.le_iff_toNat_le, UInt64.toNat_ofNat_of_lt' hn]
  simp only [taskUntil, Progress.advance, addSaturating_one hn, hreached]

/-- The token of a monitor that cancels itself is cancelled once enough single pieces of work are
counted, at least one. -/
theorem isCancelled_after_taskUntil (limit : UInt64) (htoken : p.token < pool.flags.size)
    (hpool : pool.isCancelled p.token = false) (total : UInt64) {n : Nat} (hn : n < UInt64.size) :
    ((taskUntil limit).after total (p, pool) n).2.flags.size = pool.flags.size ∧
      (((taskUntil limit).after total (p, pool) n).2.isCancelled p.token = true ↔
        max limit.toNat 1 ≤ n) := by
  induction n with
  | zero => exact ⟨rfl, by simp [after, taskUntil, task, hpool]⟩
  | succ n ih =>
    have hcount := (counts_taskUntil limit).after_eq total (p, pool) (Nat.lt_of_succ_lt hn)
    have hbefore := ih (Nat.lt_of_succ_lt hn)
    rw [after]
    generalize (taskUntil limit).after total (p, pool) n = s at hcount hbefore ⊢
    obtain ⟨progress, held⟩ := s
    obtain ⟨hsize, hcancelled⟩ := hbefore
    obtain rfl : progress = ⟨total, .ofNat n, p.token⟩ := hcount
    rw [advance_taskUntil hn]
    by_cases hlimit : limit.toNat ≤ n + 1
    · simp only [hlimit, if_true]
      refine ⟨by rw [TokenPool.size_cancel, hsize], ?_⟩
      rw [TokenPool.isCancelled_cancel_self (hsize ▸ htoken)]
      simp only [true_iff]
      omega
    · simp only [hlimit, if_false]
      exact ⟨hsize, by rw [hcancelled]; omega⟩

/-- A monitor that cancels itself after so many single pieces of work asks to stop at every later
poll, and at none before. -/
theorem isCancelled_taskUntil_iff (htoken : p.token < pool.flags.size)
    (hpool : pool.isCancelled p.token = false) (total : UInt64) {n : Nat} (hn : n < UInt64.size) :
    (taskUntil limit).isCancelled ((taskUntil limit).after total (p, pool) n) = true ↔
      max limit.toNat 1 ≤ n := by
  have hcount := (counts_taskUntil limit).after_eq total (p, pool) hn
  have hcancelled := (isCancelled_after_taskUntil limit htoken hpool total hn).2
  rw [← hcancelled]
  show TokenPool.isCancelled _ ((taskUntil limit).after total (p, pool) n).1.token = true ↔ _
  rw [hcount]

/-- A monitor that cancels itself when `limit` pieces of work are done is noticed at the address
`limit`, or at address 1 when the limit is zero: nothing is counted before the poll at address 0. -/
theorem firstStop_taskUntil_iff (htoken : p.token < pool.flags.size)
    (hpool : pool.isCancelled p.token = false) {total : UInt64} {k : Nat} :
    (taskUntil limit).FirstStop total (p, pool) k ↔ k = max limit.toNat 1 ∧ k < total.toNat := by
  have hpoll : ∀ n < total.toNat,
      ((taskUntil limit).isCancelled ((taskUntil limit).after total (p, pool) n) = true ↔
        max limit.toNat 1 ≤ n) := fun n hn =>
    isCancelled_taskUntil_iff htoken hpool total (Nat.lt_trans hn total.toNat_lt_size)
  constructor
  · rintro ⟨hlt, hstops, hbefore⟩
    refine ⟨Nat.le_antisymm (Nat.le_of_not_lt fun hgt => ?_) ((hpoll k hlt).1 hstops), hlt⟩
    have hearlier := (hpoll _ (Nat.lt_trans hgt hlt)).2 (Nat.le_refl _)
    rw [hbefore _ hgt] at hearlier
    cases hearlier
  · rintro ⟨rfl, hlt⟩
    refine ⟨hlt, (hpoll _ hlt).2 (Nat.le_refl _), fun n hn => ?_⟩
    refine Bool.eq_false_iff.2 fun hstops => ?_
    exact Nat.not_lt.2 ((hpoll n (Nat.lt_trans hn hlt)).1 hstops) hn

end Monitor

end LoopTable
