import LoopTable.Progress

/-!
# Tokens of their own and tokens that stay cancelled

Flags are shared by the copies of a token and by nothing else. So cancelling one token is not seen
by those who ask another (`TokenPool.isCancelled_cancel_of_ne`), and in what order tokens are
cancelled makes no difference (`TokenPool.cancel_comm`).

What a step does to the flags behind a collection of handles is one of three things
(`Handles.flags_apply`). None of them takes a flag back: whatever is done, a token that is cancelled
stays cancelled (`Handles.isCancelled_apply`).
-/

namespace LoopTable

namespace TokenPool

variable {pool : TokenPool} {token other : Token}

/-! ## One flag for each token -/

/-- Cancelling a token is not seen by those who ask another. -/
theorem isCancelled_cancel_of_ne (h : other ≠ token) :
    (pool.cancel other).isCancelled token = pool.isCancelled token := by
  rw [isCancelled, cancel, Array.getElem?_setIfInBounds_ne h, isCancelled]

/-- Cancelling a token again changes nothing. -/
theorem cancel_cancel_self (pool : TokenPool) (token : Token) :
    (pool.cancel token).cancel token = pool.cancel token := by
  rw [cancel, cancel, Array.setIfInBounds_setIfInBounds]

theorem cancel_comm (pool : TokenPool) (token other : Token) :
    (pool.cancel token).cancel other = (pool.cancel other).cancel token := by
  by_cases h : token = other
  · rw [h]
  · simp only [cancel, Array.setIfInBounds_comm true true h]

/-! ### Tokens that may have been cancelled -/

/-- Cancels a token, or leaves it alone. -/
def cancelIf (cancels : Bool) (pool : TokenPool) (token : Token) : TokenPool :=
  if cancels then pool.cancel token else pool

theorem isCancelled_cancelIf_of_ne (cancels : Bool) (h : other ≠ token) :
    (pool.cancelIf cancels other).isCancelled token = pool.isCancelled token := by
  cases cancels with
  | true => exact isCancelled_cancel_of_ne h
  | false => rfl

theorem cancelIf_cancelIf_self (first second : Bool) (pool : TokenPool) (token : Token) :
    (pool.cancelIf first token).cancelIf second token = pool.cancelIf (first || second) token := by
  cases first with
  | false => rfl
  | true =>
    cases second with
    | false => rfl
    | true => exact pool.cancel_cancel_self token

theorem cancelIf_comm (first second : Bool) (pool : TokenPool) (token other : Token) :
    (pool.cancelIf first token).cancelIf second other =
      (pool.cancelIf second other).cancelIf first token := by
  cases first with
  | false => rfl
  | true =>
    cases second with
    | false => rfl
    | true => exact pool.cancel_comm token other

/-! ## Flags are not taken back -/

/-- A token that is cancelled has been handed out. -/
theorem lt_size_of_isCancelled (h : pool.isCancelled token = true) : token < pool.flags.size := by
  refine Nat.lt_of_not_le fun hle => ?_
  rw [isCancelled, Array.getElem?_eq_none hle] at h
  cases h

theorem isCancelled_cancel (h : pool.isCancelled token = true) (other : Token) :
    (pool.cancel other).isCancelled token = true := by
  by_cases hother : other = token
  · rw [hother, isCancelled_cancel_self (lt_size_of_isCancelled h)]
  · rw [isCancelled_cancel_of_ne hother, h]

/-- Cancelling a token cancels no other one. -/
theorem isCancelled_cancel_iff (h : other < pool.flags.size) :
    (pool.cancel other).isCancelled token = true ↔
      pool.isCancelled token = true ∨ other = token := by
  constructor
  · intro hcancelled
    by_cases hother : other = token
    · exact Or.inr hother
    · rw [isCancelled_cancel_of_ne hother] at hcancelled
      exact Or.inl hcancelled
  · rintro (hcancelled | rfl)
    · exact isCancelled_cancel hcancelled other
    · exact isCancelled_cancel_self h

/-- A token that is handed out is not cancelled, and it changes nothing for the others. -/
theorem isCancelled_issue (pool : TokenPool) (token : Token) :
    pool.issue.2.isCancelled token = pool.isCancelled token := by
  rw [issue, isCancelled, isCancelled, Array.getElem?_push]
  by_cases hnew : token = pool.flags.size
  · rw [if_pos hnew, hnew, Array.getElem?_eq_none (Nat.le_refl _)]
    rfl
  · rw [if_neg hnew]

end TokenPool

namespace Handles

/-- What a step does to the flags behind some handles. -/
inductive Flags (h : Handles) : Step → TokenPool → Prop
  /-- It leaves them alone, and cancels no token that was made. -/
  | kept {step : Step} : (∀ t, step = .cancel t → h.tokens[t]? = none) → Flags h step h.pool
  /-- It hands out one flag more. -/
  | issued {step : Step} : (∀ t, step ≠ .cancel t) → Flags h step h.pool.issue.2
  /-- It cancels a token. -/
  | cancelled {t : Nat} {token : Token} : h.tokens[t]? = some token →
      Flags h (.cancel t) (h.pool.cancel token)

theorem flags_apply (h : Handles) (step : Step) : Flags h step (h.apply step).pool := by
  cases step with
  | newToken | newTaskAlone => exact .issued (by simp)
  | start | advance => exact .kept (by simp)
  | copyToken t | newTask t =>
    simp only [apply]
    cases h.tokens[t]? <;> exact .kept (by simp)
  | tokenOf m | copyTask m =>
    simp only [apply]
    cases h.tasks[m]? <;> exact .kept (by simp)
  | cancel t =>
    simp only [apply]
    cases ht : h.tokens[t]? with
    | none => exact .kept fun t' heq => by cases heq; exact ht
    | some token => exact .cancelled ht

/-- Whatever is done to handles, a token that is cancelled stays cancelled. -/
theorem isCancelled_apply {h : Handles} {token : Token}
    (hcancelled : h.pool.isCancelled token = true) (step : Step) :
    (h.apply step).pool.isCancelled token = true := by
  have hflags := h.flags_apply step
  generalize (h.apply step).pool = pool at hflags ⊢
  cases hflags with
  | kept => exact hcancelled
  | issued => exact (TokenPool.isCancelled_issue ..).trans hcancelled
  | cancelled => exact TokenPool.isCancelled_cancel hcancelled _

end Handles

/-! ## Monitors of one progress -/

/-- A monitor keeps a progress. It counts the work in it, asks its token whether to stop, and may
cancel that token by what it has counted, but has nothing to do with other tokens. -/
structure Monitor.KeepsProgress (m : Monitor (Progress × TokenPool)) : Prop where
  /-- The amount of work in all is noted. -/
  start_eq : ∀ total p pool, m.start total (p, pool) = (p.start total, pool)
  /-- Work done is added, and the token may be cancelled. -/
  advance_eq : ∀ n p, ∃ cancels, ∀ pool,
    m.advance n (p, pool) = (p.advance n, pool.cancelIf cancels p.token)
  /-- The token is asked. -/
  isCancelled_eq : ∀ p pool, m.isCancelled (p, pool) = pool.isCancelled p.token

namespace Monitor

theorem keepsProgress_task : Monitor.task.KeepsProgress where
  start_eq := fun _ _ _ => rfl
  advance_eq := fun _ _ => ⟨false, fun _ => rfl⟩
  isCancelled_eq := fun _ _ => rfl

theorem keepsProgress_taskUntil (limit : UInt64) : (Monitor.taskUntil limit).KeepsProgress where
  start_eq := fun _ _ _ => rfl
  advance_eq := by
    intro n p
    refine ⟨decide (limit ≤ (p.advance n).reached), fun pool => ?_⟩
    simp only [taskUntil, TokenPool.cancelIf, decide_eq_true_eq]
    rfl
  isCancelled_eq := fun _ _ => rfl

end Monitor

end LoopTable
