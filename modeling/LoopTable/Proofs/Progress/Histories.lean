import LoopTable.Proofs.Progress.Families

/-!
# Tokens and progresses over any history

What a progress has counted depends on the last step that set its counts, which started it or made
it, and on the amounts by which it was advanced since. `Sets` lists the steps that set counts. Each
addition on the way is cut off at the greatest number, but the amounts may as well be added up
exactly and the sum be cut off once (`counts_run`). Nothing that is done to one progress counts for
another, be it a copy or not.

Together with what is known of families, this says what can be read off any handle after any history
(`tokens_and_progresses_over_any_history`).
-/

namespace LoopTable

theorem toNat_addSaturating (a b : UInt64) :
    (addSaturating a b).toNat = min (UInt64.size - 1) (a.toNat + b.toNat) := by
  have hlt : min (UInt64.size - 1) (a.toNat + b.toNat) < UInt64.size :=
    Nat.lt_of_le_of_lt (Nat.min_le_left _ _) (by decide)
  exact UInt64.toNat_ofNat_of_lt' hlt

/-- A poll ends the scan exactly if the monitor asks to stop. -/
theorem Scan.run_poll_eq_error_iff {σ μ : Type} (m : Monitor μ) (s : Scan σ μ) :
    (∃ s', (poll m).run s = .error .cancelled s') ↔ m.isCancelled s.monitor = true := by
  rw [run_poll]
  by_cases hcancelled : m.isCancelled s.monitor = true
  · rw [if_pos hcancelled]
    exact ⟨fun _ => hcancelled, fun _ => ⟨_, rfl⟩⟩
  · rw [if_neg hcancelled]
    refine ⟨?_, fun h => absurd h hcancelled⟩
    rintro ⟨s', heq⟩
    cases heq

namespace Handles

/-! ## One step -/

/-- What a step does to the counts of a progress that was made before. -/
def Step.onTask (m : Nat) : Step → Progress → Progress
  | .start n total, p => if n = m then p.start total else p
  | .advance n amount, p => if n = m then p.advance amount else p
  | _, p => p

/-- The amount by which a step advances a progress. -/
def Step.amount (m : Nat) : Step → Nat
  | .advance n amount => if n = m then amount.toNat else 0
  | _ => 0

/-- A step sets the counts of a progress: it starts it, or makes it anew or as a copy. -/
inductive Sets (h : Handles) (m : Nat) : Step → UInt64 → UInt64 → Prop
  | started {total : UInt64} : m < h.tasks.size → Sets h m (.start m total) total 0
  | made {t : Nat} : t < h.tokens.size → m = h.tasks.size → Sets h m (.newTask t) 0 0
  | madeAlone : m = h.tasks.size → Sets h m .newTaskAlone 0 0
  | copied {n : Nat} {p : Progress} : h.tasks[n]? = some p → m = h.tasks.size →
      Sets h m (.copyTask n) p.total p.reached

section Step

variable {h : Handles} {step : Step} {m : Nat} {p : Progress} {total reached : UInt64}

/-- What was made stays, and counts only what is done to it. -/
theorem tasks_apply (hp : h.tasks[m]? = some p) :
    (h.apply step).tasks[m]? = some (step.onTask m p) := by
  have hpush : ∀ q, (h.tasks.push q)[m]? = some p := by
    intro q
    have hm := (Array.getElem?_eq_some_iff.1 hp).1
    rw [Array.getElem?_push, if_neg (Nat.ne_of_lt hm), hp]
  cases step with
  | newToken => exact hp
  | newTaskAlone => exact hpush _
  | copyToken t =>
    simp only [apply]
    cases h.tokens[t]? <;> exact hp
  | tokenOf n =>
    simp only [apply]
    cases h.tasks[n]? <;> exact hp
  | newTask t =>
    simp only [apply]
    cases h.tokens[t]? with
    | none => exact hp
    | some token => exact hpush _
  | copyTask n =>
    simp only [apply]
    cases h.tasks[n]? with
    | none => exact hp
    | some q => exact hpush q
  | cancel t =>
    simp only [apply]
    cases h.tokens[t]? <;> exact hp
  | start n total | advance n amount =>
    simp only [apply, Array.getElem?_modify, Step.onTask, hp]
    split <;> rfl

/-- A step that sets the counts of a progress does so. -/
theorem Sets.tasks_apply (hsets : Sets h m step total reached) :
    ∃ token, (h.apply step).tasks[m]? = some ⟨total, reached, token⟩ := by
  cases hsets with
  | started hm =>
    have hget := Array.getElem?_eq_getElem hm
    exact ⟨h.tasks[m].token, by simp only [apply, Array.getElem?_modify, hget, if_pos]; rfl⟩
  | @made t ht hm =>
    subst hm
    have hget := Array.getElem?_eq_getElem ht
    exact ⟨h.tokens[t], by simp only [apply, hget, Array.getElem?_push_size, Progress.new]⟩
  | madeAlone hm =>
    subst hm
    exact ⟨h.pool.issue.1, Array.getElem?_push_size⟩
  | @copied n p hp hm =>
    subst hm
    exact ⟨p.token, by simp only [apply, hp, Array.getElem?_push_size]⟩

/-- A step that makes a progress sets its counts. -/
theorem Makes.exists_sets {source? : Option Handle} (hmakes : Makes h step (.task m) source?) :
    ∃ total reached, Sets h m step total reached := by
  cases hmakes with
  | newTaskAlone => exact ⟨0, 0, .madeAlone rfl⟩
  | newTask ht => exact ⟨0, 0, .made ht rfl⟩
  | copyTask hn => exact ⟨_, _, .copied (Array.getElem?_eq_getElem hn) rfl⟩

/-- What is there after a step was there before, or the step sets its counts. -/
theorem exists_sets_or (hp : (h.apply step).tasks[m]? = some p) :
    (∃ total reached, Sets h m step total reached) ∨ ∃ q, h.tasks[m]? = some q := by
  have htoken : (h.apply step).token? (.task m) = some p.token := by
    rw [token?, hp, Option.map_some]
  rcases token?_apply_eq_some_iff.1 htoken with hbefore | ⟨source?, hmakes, -⟩
  · obtain ⟨q, hq, -⟩ := Option.map_eq_some_iff.1 hbefore
    exact Or.inr ⟨q, hq⟩
  · exact Or.inl hmakes.exists_sets

/-- A step that does not start a progress adds to its count what it advances it by. -/
theorem Step.reached_onTask (hstep : ∀ total, step ≠ .start m total) :
    (step.onTask m p).total = p.total ∧
      (step.onTask m p).reached.toNat = min (UInt64.size - 1) (p.reached.toNat + step.amount m) := by
  have hp : p.reached.toNat = min (UInt64.size - 1) (p.reached.toNat + 0) := by
    have := p.reached.toNat_lt_size
    omega
  cases step with
  | start n total =>
    by_cases hn : n = m
    · exact absurd (hn ▸ rfl) (hstep total)
    · rw [onTask, if_neg hn]
      exact ⟨rfl, hp⟩
  | advance n amount =>
    by_cases hn : n = m
    · rw [onTask, Step.amount, if_pos hn, if_pos hn]
      exact ⟨rfl, toNat_addSaturating ..⟩
    · rw [onTask, Step.amount, if_neg hn, if_neg hn]
      exact ⟨rfl, hp⟩
  | newToken | newTaskAlone | copyToken | tokenOf | newTask | copyTask | cancel => exact ⟨rfl, hp⟩

theorem Step.onTask_of_ne (hstart : ∀ total, step ≠ .start m total)
    (hadvance : ∀ amount, step ≠ .advance m amount) : step.onTask m p = p := by
  cases step with
  | start n total => exact if_neg fun hn : n = m => hstart total (hn ▸ rfl)
  | advance n amount => exact if_neg fun hn : n = m => hadvance amount (hn ▸ rfl)
  | newToken | newTaskAlone | copyToken | tokenOf | newTask | copyTask | cancel => rfl

end Step

/-! ## Several steps -/

/-- The amounts by which some steps advance a progress, added up exactly. -/
def work (m : Nat) : List Step → Nat
  | [] => 0
  | step :: later => step.amount m + work m later

section Run

variable {h : Handles} {steps later : List Step} {m : Nat} {p : Progress}

/-- A progress that is not started again has counted all that it was advanced by, cut off once. -/
theorem counts_run (hp : h.tasks[m]? = some p) (hfree : ∀ total, Step.start m total ∉ later) :
    ∃ q, (h.run later).tasks[m]? = some q ∧ q.total = p.total ∧
      q.reached.toNat = min (UInt64.size - 1) (p.reached.toNat + work m later) := by
  induction later generalizing h p with
  | nil =>
    refine ⟨p, hp, rfl, ?_⟩
    have hlt := p.reached.toNat_lt_size
    rw [work]
    omega
  | cons step later ih =>
    have hstep : ∀ total, step ≠ .start m total :=
      fun total heq => hfree total (heq ▸ List.mem_cons_self ..)
    obtain ⟨htotal, hreached⟩ := Step.reached_onTask (p := p) hstep
    obtain ⟨q, hq, hqtotal, hqreached⟩ :=
      ih (tasks_apply hp) fun total hmem => hfree total (List.mem_cons_of_mem _ hmem)
    refine ⟨q, hq, hqtotal.trans htotal, ?_⟩
    rw [hqreached, hreached, work]
    omega

/-- What is done to other handles is not seen in a progress. -/
theorem tasks_run_of_apart (hp : h.tasks[m]? = some p) (hfree : ∀ total, .start m total ∉ later)
    (hidle : ∀ amount, .advance m amount ∉ later) : (h.run later).tasks[m]? = some p := by
  induction later generalizing h with
  | nil => exact hp
  | cons step later ih =>
    have hkept : (h.apply step).tasks[m]? = some p := by
      rw [tasks_apply hp, Step.onTask_of_ne]
      · exact fun total heq => hfree total (heq ▸ List.mem_cons_self ..)
      · exact fun amount heq => hidle amount (heq ▸ List.mem_cons_self ..)
    exact ih hkept (fun total hmem => hfree total (List.mem_cons_of_mem _ hmem))
      fun amount hmem => hidle amount (List.mem_cons_of_mem _ hmem)

/-- The counts of a progress were set by some step, and it was not started since. -/
theorem exists_last_sets (hp : (after steps).tasks[m]? = some p) :
    ∃ before step later total reached, steps = before ++ step :: later ∧
      Sets (after before) m step total reached ∧ ∀ amount, .start m amount ∉ later := by
  induction steps using List.reverseRecOn generalizing p with
  | nil => simp [after, run, empty] at hp
  | append_singleton steps step ih =>
    by_cases hsets : ∃ total reached, Sets (after steps) m step total reached
    · obtain ⟨total, reached, hsets⟩ := hsets
      exact ⟨steps, step, [], total, reached, rfl, hsets, fun _ => List.not_mem_nil⟩
    · rw [after_snoc] at hp
      obtain ⟨q, hq⟩ := (exists_sets_or hp).resolve_left hsets
      obtain ⟨before, set, later, total, reached, rfl, hset, hfree⟩ := ih hq
      refine ⟨before, set, later ++ [step], total, reached, by simp, hset, fun amount hmem => ?_⟩
      rcases List.mem_append.1 hmem with hmem | hmem
      · exact hfree amount hmem
      · obtain rfl := List.mem_singleton.1 hmem
        exact hsets ⟨amount, 0, .started (Array.getElem?_eq_some_iff.1 hq).1⟩

end Run

/-! ## What can be read off handles -/

/-- Which handles share a flag after a history, and which of them read as cancelled. -/
structure Families (steps : List Step) : Prop where
  /-- Every handle that was made descends from one original. -/
  origin : ∀ a, (∃ token, (after steps).token? a = some token) ↔
    ∃ k, Descends steps a k ∧ ∀ l, Descends steps a l → l = k
  /-- Two handles share a flag exactly if this original is the same. -/
  shared : ∀ a b s t, (after steps).token? a = some s → (after steps).token? b = some t →
    (s = t ↔ ∃ k, Descends steps a k ∧ Descends steps b k)
  /-- A handle reads as cancelled exactly if some token of its family has been cancelled. -/
  cancelled : ∀ a k, Descends steps a k → ((after steps).isCancelled a = true ↔
    ∃ before t later, steps = before ++ .cancel t :: later ∧ Descends before (.token t) k)
  /-- A poll of a progress fails exactly if it reads as cancelled. -/
  polled : ∀ (σ : Type) m p (s : Scan σ (Progress × TokenPool)),
    (after steps).tasks[m]? = some p → s.monitor = (p, (after steps).pool) →
      ((∃ s', (Scan.poll .task).run s = .error .cancelled s') ↔
        (after steps).isCancelled (.task m) = true)
  /-- It stays so, whatever follows. -/
  final : ∀ a more, (after steps).isCancelled a = true →
    (after (steps ++ more)).isCancelled a = true

/-- What the progresses have counted after a history. -/
structure Counts (steps : List Step) : Prop where
  /-- A progress counts from where its counts were set last on, up to the greatest number. -/
  counted : ∀ m before step later total reached, steps = before ++ step :: later →
    Sets (after before) m step total reached → (∀ amount, .start m amount ∉ later) →
      ∃ p, (after steps).tasks[m]? = some p ∧ p.total = total ∧
        p.reached.toNat = min (UInt64.size - 1) (reached.toNat + work m later)
  /-- There is such a step for every progress that was made. -/
  exists_set : ∀ m p, (after steps).tasks[m]? = some p →
    ∃ before step later total reached, steps = before ++ step :: later ∧
      Sets (after before) m step total reached ∧ ∀ amount, .start m amount ∉ later
  /-- No progress sees what is done to another. -/
  apart : ∀ m p before later, steps = before ++ later → (after before).tasks[m]? = some p →
    (∀ total, .start m total ∉ later) → (∀ amount, .advance m amount ∉ later) →
      (after steps).tasks[m]? = some p

/-- **Tokens and progresses.** After any history, who shares a flag with whom is told by who was
copied from whom, a handle reads as cancelled as soon as one token of its family has been cancelled
and forever after, and each progress has counted exactly what it was advanced by since its counts
were set. -/
theorem tokens_and_progresses_over_any_history (steps : List Step) :
    Families steps ∧ Counts steps := by
  refine ⟨⟨fun a => ⟨?_, ?_⟩, fun a b s t => token?_eq_iff, fun a k => Descends.isCancelled_iff, ?_,
    fun a more => isCancelled_append more⟩, ⟨?_, fun m p => exists_last_sets, ?_⟩⟩
  · rintro ⟨token, htoken⟩
    obtain ⟨k, hk⟩ := exists_descends htoken
    exact ⟨k, hk, fun l hl => hl.unique hk⟩
  · rintro ⟨k, hk, -⟩
    exact ⟨_, hk.token?_eq⟩
  · intro σ m p s hp hs
    have hread : (after steps).isCancelled (.task m) = (after steps).pool.isCancelled p.token := by
      rw [isCancelled, token?, hp, Option.map_some, Option.any_some]
    rw [Scan.run_poll_eq_error_iff, hs, hread]
    rfl
  · rintro m before step later total reached rfl hsets hfree
    obtain ⟨token, hset⟩ := hsets.tasks_apply
    obtain ⟨p, hp, hcounts⟩ := counts_run hset hfree
    refine ⟨p, ?_, hcounts⟩
    rw [after, run_append]
    exact hp
  · rintro m p before later rfl hp hfree hidle
    rw [after, run_append]
    exact tasks_run_of_apart hp hfree hidle

/-- A progress that has counted nearly all it can is copied. Then the copy counts beyond that, while
the first one stays as it was, and a token taken from the first one cancels the copy. -/
theorem tokens_and_progresses_over_any_history_copied :
    let before : List Step := [.newTaskAlone, .start 0 7, .advance 0 18446744073709551614]
    let later : List Step := [.advance 1 5, .tokenOf 0, .cancel 0]
    let h := after (before ++ .copyTask 0 :: later)
    (∃ k, Descends (before ++ .copyTask 0 :: later) (.task 1) k ∧
      Descends (before ++ .copyTask 0 :: later) (.token 0) k) ∧
    h.isCancelled (.task 1) = true ∧ h.tasks[0]? = some ⟨7, 18446744073709551614, 0⟩ ∧
    ∃ p, h.tasks[1]? = some p ∧ p.total = 7 ∧ p.reached.toNat = UInt64.size - 1 := by
  intro before later h
  obtain ⟨hfamilies, hcounts⟩ :=
    tokens_and_progresses_over_any_history (before ++ .copyTask 0 :: later)
  have hcopied : Sets (after before) 1 (.copyTask 0) 7 18446744073709551614 :=
    .copied (p := ⟨7, 18446744073709551614, 0⟩) rfl rfl
  refine ⟨(hfamilies.shared (.task 1) (.token 0) 0 0 rfl rfl).1 rfl, rfl, ?_, ?_⟩
  · refine hcounts.apart 0 _ before (.copyTask 0 :: later) rfl rfl ?_ ?_ <;> simp [later]
  · obtain ⟨p, hp, htotal, hreached⟩ :=
      hcounts.counted 1 before (.copyTask 0) later 7 _ rfl hcopied (by simp [later])
    exact ⟨p, hp, htotal, hreached⟩

end Handles

end LoopTable
