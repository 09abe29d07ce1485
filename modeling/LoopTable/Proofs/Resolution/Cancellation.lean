import LoopTable.Proofs.Resolution.Agreement
import LoopTable.Proofs.Resolution.Coverage
import LoopTable.Proofs.Resolution.Polling
import LoopTable.Proofs.Resolution.Replay

/-!
# Scans that are cancelled

Cancelling a scan cuts it off at the address where it is noticed (`resolve_cut_at_cancellation`):
what comes before that address is resolved as if the image ended there, and nothing else is.

A scan is cancelled exactly when a poll asks to stop before the scan would have failed
(`cancelled_iff_not_failsBefore`); otherwise its monitor makes no difference (`uncut_agree`).
-/

namespace LoopTable

/-! ## Images cut off -/

/-- What a scan has found at an address depends on nothing behind it. -/
theorem Passed.take {image : List UInt8} {k : Nat} {opened : List Nat} {closed : List (Nat × Nat)}
    (h : Passed image k opened closed) :
    Passed (image.take k) (image.take k).length opened closed where
  le_length := Nat.le_refl _
  course := by
    rw [List.take_length]
    exact h.course
  closing_lt := h.closing_lt

/-- An undisturbed scan of an image that can be passed asks for both words of every loop closed. -/
theorem Ending.puts_eq_of_passed {image : List UInt8} {before after : Bytes}
    {puts : List (UInt64 × List UInt8)} {result : Except ResolutionError Statistics}
    (h : Ending image before after puts result) {opened : List Nat} {closed : List (Nat × Nat)}
    (hpassed : Passed image image.length opened closed) : puts = closed.flatMap pairPuts := by
  cases h with
  | finished hreached | leftOpen hreached => rw [(hpassed.unique hreached.toPassed).2]
  | stray hclose hreached =>
    exact absurd (hreached.blocks_of_nil hclose) (hpassed.not_blocks_of_length _)
  | farStart hclose hfar hreached =>
    have hlt := (hreached.matched_next hclose).lt
    exact absurd ⟨hclose, Or.inr (by omega)⟩ (hpassed.not_blocks_of_length _)
  | farEnd hclose _ hfar _ _ =>
    exact absurd ⟨hclose, Or.inr hfar⟩ (hpassed.not_blocks_of_length _)

/-- A scan that has come to an address has written to no address from there on. -/
theorem Reached.frame_of_le {image : List UInt8} {before after : Bytes} {k : Nat}
    {opened : List Nat} {closed : List (Nat × Nat)} (h : Reached image before after k opened closed)
    {i : Nat} (hi : 2 * k ≤ i) : after[i]? = before[i]? := by
  refine h.rewritten.frame i ?_
  rintro v ⟨o, c, hm, hc, ⟨heq, -⟩ | ⟨heq, -⟩⟩
  · omega
  · have := hm.lt
    omega

section Memory

variable {σ μ μ₀ : Type} {image : Bytes} {w : Writable σ} {view : σ → Bytes} {m : Monitor μ}
  {table : σ} {monitor : μ} {m₀ : Monitor μ₀} {monitor₀ : μ₀}

/-! ## Where a scan is cut off -/

/-- A scan that is cancelled stops at the first poll that asks for it, with the words of the loops
closed by then written and nothing else. -/
theorem exists_cut (hw : w.Honest view) (hroom : HasRoom image (view table))
    (hcancelled : (resolve (.ofBytes image) w m table monitor).result = .error .cancelled) :
    ∃ k opened closed, m.FirstStop (.ofNat image.size) monitor k ∧
      Reached image.toList (view table)
        (view (resolve (.ofBytes image) w m table monitor).table) k opened closed ∧
      (resolve (.ofBytes image) w m table monitor).puts = closed.flatMap pairPuts ∧
      (resolve (.ofBytes image) w m table monitor).monitor =
        m.after (.ofNat image.size) monitor k := by
  have hended := ended_resolve (.ofBytes image) w m table monitor
  generalize resolve (.ofBytes image) w m table monitor = outcome at hended hcancelled ⊢
  cases hended with
  | tooSmall | leftOpen | finished => cases hcancelled
  | @stopped bytes opened closed s s' cause _ hwent hlt hvisited =>
    cases hcancelled
    cases hvisited with
    | cancelled hpoll =>
      have hmonitor := hwent.monitor_eq
      have hputs := hwent.puts_eq
      rw [hmonitor] at hpoll
      refine ⟨bytes.length, opened, closed, ⟨hlt, hpoll, hwent.polls⟩, hwent.reached hw hroom, ?_,
        hmonitor⟩
      rw [Outcome.puts_ofResult_error, Scan.puts_polled, hputs]
    | closed _ _ _ hsettled => cases hsettled

/-- A scan is cancelled exactly when a poll asks to stop and no address before it blocks. -/
theorem cancelled_iff (hw : w.Honest view) (hroom : HasRoom image (view table)) :
    (resolve (.ofBytes image) w m table monitor).result = .error .cancelled ↔
      ∃ k, m.FirstStop (.ofNat image.size) monitor k ∧ ∀ e < k, ¬ Blocks image.toList e := by
  constructor
  · intro hcancelled
    obtain ⟨k, opened, closed, hstop, hreached, -, -⟩ := exists_cut hw hroom hcancelled
    exact ⟨k, hstop, fun e he => hreached.not_blocks he⟩
  · rintro ⟨k, hstop, hfree⟩
    refine Classical.byContradiction fun hcancelled => ?_
    obtain ⟨n, hcoverage⟩ := exists_coverage hw hroom hcancelled
    have hlt : k < image.toList.length := by
      rw [Array.length_toList, ← hroom.toNat_size]
      exact hstop.lt
    have hn : n ≤ k := hstop.le (Array.length_toList ▸ hcoverage.polls)
    obtain ⟨e, he, hblocks⟩ := hcoverage.exists_blocks hlt hn
    exact hfree e he hblocks

/-- The table that a scan leaves that is cut off is the one that the image leaves that is cut
off. -/
theorem table_eq_of_cut {k : Nat} {opened : List Nat} {closed : List (Nat × Nat)}
    (hw : w.Honest view) (hroom : HasRoom image (view table))
    (hpassed : Passed image.toList k opened closed)
    (hputs : (resolve (.ofBytes image) w m table monitor).puts = closed.flatMap pairPuts)
    (hquiet : m₀.Quiet (.ofNat k) monitor₀) :
    (resolve (.ofBytes image) w m table monitor).table =
      (resolve (.ofBytes (image.take k)) w m₀ table monitor₀).table := by
  have hlist : (image.take k).toList = image.toList.take k := by simp
  have hsize : (image.take k).size = k := by
    rw [← Array.length_toList, hlist, hpassed.length_take]
  have hle := hpassed.le_length
  have hroom' : HasRoom (image.take k) (view table) := by
    refine ⟨?_, hroom.addressable⟩
    have henough := hroom.enough
    rw [Array.length_toList] at hle
    omega
  have hquiet' : m₀.Quiet (.ofNat (image.take k).size) monitor₀ := hsize.symm ▸ hquiet
  have hending := ending_of_quiet hw hroom' hquiet'
  rw [hlist] at hending
  rw [table_eq_replay, table_eq_replay, hputs, hending.puts_eq_of_passed hpassed.take]

/-! ## Against the scan that is not asked to stop -/

/-- Where a scan fails that is not asked to stop, told by the image. -/
theorem failsBefore_iff_blocks (hw : w.Honest view) (hroom : HasRoom image (view table))
    (hquiet : m₀.Quiet (.ofNat image.size) monitor₀) {k : Nat} (hk : k < image.size) :
    (resolve (.ofBytes image) w m₀ table monitor₀).FailsBefore k ↔
      ∃ e < k, Blocks image.toList e := by
  obtain ⟨n, hcoverage⟩ := exists_coverage hw hroom (result_ne_cancelled hquiet w table)
  exact hcoverage.failsBefore_iff hk hroom.image_lt

/-- A scan is cancelled exactly when a poll asks to stop before the scan would have failed. -/
theorem cancelled_iff_not_failsBefore (hw : w.Honest view) (hroom : HasRoom image (view table))
    (hquiet : m₀.Quiet (.ofNat image.size) monitor₀) :
    (resolve (.ofBytes image) w m table monitor).result = .error .cancelled ↔
      ∃ k, m.FirstStop (.ofNat image.size) monitor k ∧
        ¬ (resolve (.ofBytes image) w m₀ table monitor₀).FailsBefore k := by
  rw [cancelled_iff hw hroom]
  refine exists_congr fun k => and_congr_right fun hstop => ?_
  have hk : k < image.size := by
    rw [← hroom.toNat_size]
    exact hstop.lt
  rw [failsBefore_iff_blocks hw hroom hquiet hk]
  simp only [not_exists, not_and]

/-- A scan that is not cancelled does what it does under a monitor that never asks to stop. -/
theorem uncut_agree (hw : w.Honest view) (hroom : HasRoom image (view table))
    (hquiet : m₀.Quiet (.ofNat image.size) monitor₀)
    (hcancelled : (resolve (.ofBytes image) w m table monitor).result ≠ .error .cancelled) :
    (resolve (.ofBytes image) w m table monitor).result =
        (resolve (.ofBytes image) w m₀ table monitor₀).result ∧
      (resolve (.ofBytes image) w m table monitor).table =
        (resolve (.ofBytes image) w m₀ table monitor₀).table := by
  obtain ⟨hresult, hputs⟩ := undisturbed_agree hw hroom hcancelled hw hroom
    (result_ne_cancelled hquiet w table)
  refine ⟨hresult, ?_⟩
  rw [table_eq_replay, table_eq_replay]
  exact congrArg _ hputs

/-- **Cancellation.** Let `whole` be a scan of an image in memory that is not asked to stop, and
`outcome` one of the same image into the same table under any monitor.

* If no poll asks to stop, or `whole` fails before it comes to the first that does, both give the
  same result and leave the same table.
* Otherwise `outcome` is cancelled at the address `k` of that poll. Its table is the one that the
  first `k` bytes leave, in which the words of the loops closed before `k` are written and nothing
  else. A monitor that counts has been told the size of the image, and has counted to `k`.
* The progress of a task counts, also one that cancels itself once it has counted to a limit.
  The latter is noticed at the limit, or at address 1 if the limit is zero, if that lies in the
  image. -/
theorem resolve_cut_at_cancellation (hw : w.Honest view) (hroom : HasRoom image (view table))
    (hquiet : m₀.Quiet (.ofNat image.size) monitor₀) :
    let total := UInt64.ofNat image.size
    let whole := resolve (.ofBytes image) w m₀ table monitor₀
    let outcome := resolve (.ofBytes image) w m table monitor
    ((∀ k, ¬ m.FirstStop total monitor k) ∨
        (∃ k, m.FirstStop total monitor k ∧ whole.FailsBefore k) →
      outcome.result = whole.result ∧ outcome.table = whole.table) ∧
    (∀ k, m.FirstStop total monitor k → ¬ whole.FailsBefore k →
      outcome.result = .error .cancelled ∧
      (∀ {μ₁ : Type} (m₁ : Monitor μ₁) (monitor₁ : μ₁), m₁.Quiet (.ofNat k) monitor₁ →
        outcome.table = (resolve (.ofBytes (image.take k)) w m₁ table monitor₁).table) ∧
      Bytes.Rewritten (view table) (view outcome.table) (Destination image.toList k) ∧
      (∀ i, 2 * k ≤ i → (view outcome.table)[i]? = (view table)[i]?) ∧
      ∀ progress, m.Counts progress →
        progress outcome.monitor = ⟨total, .ofNat k, (progress monitor).token⟩) ∧
    Monitor.task.Counts Prod.fst ∧
    ∀ (limit : UInt64) (p : Progress) (pool : TokenPool), p.token < pool.flags.size →
      pool.isCancelled p.token = false →
      (Monitor.taskUntil limit).Counts Prod.fst ∧
      ∀ k, (Monitor.taskUntil limit).FirstStop total (p, pool) k ↔
        k = max limit.toNat 1 ∧ k < image.size := by
  intro total whole outcome
  refine ⟨fun hundisturbed => uncut_agree hw hroom hquiet ?_,
    fun k hstop hnot => ?_, Monitor.counts_task,
    fun limit p pool htoken hpool => ⟨Monitor.counts_taskUntil limit, fun k => ?_⟩⟩
  · rcases hundisturbed with hnever | ⟨k, hstop, hfailed⟩
    · exact result_ne_cancelled (Monitor.quiet_iff.2 hnever) w table
    · intro hcancelled
      obtain ⟨k', hstop', hnot⟩ := (cancelled_iff_not_failsBefore hw hroom hquiet).1 hcancelled
      obtain rfl := hstop.unique hstop'
      exact hnot hfailed
  · have hcancelled : outcome.result = .error .cancelled :=
      (cancelled_iff_not_failsBefore hw hroom hquiet).2 ⟨k, hstop, hnot⟩
    obtain ⟨k', opened, closed, hstop', hreached, hputs, hmonitor⟩ := exists_cut hw hroom hcancelled
    obtain rfl := hstop.unique hstop'
    refine ⟨hcancelled, fun m₁ monitor₁ hquiet₁ => ?_, hreached.rewritten,
      fun i hi => hreached.frame_of_le hi, fun progress hcounts => ?_⟩
    · exact table_eq_of_cut hw hroom hreached.toPassed hputs hquiet₁
    · have hk : k < UInt64.size := Nat.lt_trans hstop.lt total.toNat_lt_size
      show progress (resolve (.ofBytes image) w m table monitor).monitor = _
      rw [hmonitor]
      exact hcounts.after_eq total monitor hk
  · have htotal : total.toNat = image.size := hroom.toNat_size
    rw [Monitor.firstStop_taskUntil_iff htoken hpool, htotal]

/-- A monitor that cancels itself after two pieces of work lets a scan resolve the first of two
loops. -/
theorem resolve_cut_between_loops :
    let monitor : Progress × TokenPool := (.new 0, ⟨#[false]⟩)
    let outcome := resolve (.ofBytes #[6, 7, 6, 7]) .bytes (.taskUntil 2) (.zeros 8) monitor
    Writable.bytes.Honest id ∧ HasRoom #[6, 7, 6, 7] (.zeros 8) ∧
      Monitor.silent.Quiet (.ofNat 4) () ∧
      (Monitor.taskUntil 2).FirstStop (.ofNat 4) monitor 2 ∧
      outcome.result = .error .cancelled ∧
      outcome.table = (resolve (.ofBytes #[6, 7]) .bytes .silent (.zeros 8) ()).table ∧
      outcome.monitor.1 = ⟨4, 2, 0⟩ := by
  intro monitor outcome
  have hroom : HasRoom #[6, 7, 6, 7] (.zeros 8) := ⟨by decide, by decide⟩
  have hquiet : Monitor.silent.Quiet (.ofNat 4) () := Monitor.quiet_silent _
  have hending := ending_of_quiet Writable.honest_bytes hroom hquiet
  have hbalanced : Balanced [6, 7, 6, 7] := .append (.loop .nil) (.loop .nil)
  obtain ⟨statistics, hok⟩ := hending.ok_iff.2 ⟨hbalanced, fun c hclose => by
    have hc : c < 4 := (List.getElem?_eq_some_iff.1 hclose).1
    omega⟩
  obtain ⟨-, hcut, -, hself⟩ := @resolve_cut_at_cancellation _ _ _ _ _ _ (.taskUntil 2) _ monitor
    _ _ Writable.honest_bytes hroom hquiet
  obtain ⟨hcounts, hstop⟩ := hself 2 (.new 0) ⟨#[false]⟩ (by decide) (by decide)
  have hfirst : (Monitor.taskUntil 2).FirstStop (.ofNat 4) monitor 2 :=
    (hstop 2).2 ⟨by decide, by decide⟩
  obtain ⟨hcancelled, htable, -, -, hmonitor⟩ := hcut 2 hfirst fun ⟨⟨cause, hfail⟩, _⟩ => by
    cases hok.symm.trans hfail
  exact ⟨Writable.honest_bytes, hroom, hquiet, hfirst, hcancelled,
    htable .silent () (Monitor.quiet_silent _), hmonitor Prod.fst hcounts⟩

end Memory

end LoopTable
