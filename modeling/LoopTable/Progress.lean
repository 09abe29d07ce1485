/-!
# Progress and cancellation

A long task reports its progress to a `Monitor` and polls it for cancellation. The monitor proper
is a `Progress`: a total, an amount done and a cancellation `Token`. Tokens are handles; the flags
behind them live in a `TokenPool`, so that all copies of a token share one flag while each copy of
a `Progress` counts for itself.

* `Monitor.silent` watches nothing, `Monitor.task` counts and obeys its token, and
  `Monitor.taskUntil` cancels its own token once enough has been done.
* `Handles` is a collection of tokens and progresses made in some order, and `Handles.Step` what
  can be done to it.
-/

namespace LoopTable

/-! ## Tokens -/

/-- A handle on a cancellation flag. -/
abbrev Token := Nat

/-- The cancellation flags that have been handed out, by token. -/
structure TokenPool where
  /-- Whether each token has been cancelled. -/
  flags : Array Bool
  deriving DecidableEq

namespace TokenPool

/-- No token has been handed out. -/
def empty : TokenPool := ⟨#[]⟩

/-- Hands out a token with a flag of its own. -/
def issue (pool : TokenPool) : Token × TokenPool :=
  (pool.flags.size, ⟨pool.flags.push false⟩)

/-- Whether a token has been cancelled. -/
def isCancelled (pool : TokenPool) (token : Token) : Bool :=
  pool.flags[token]?.getD false

/-- Cancels a token, and with it every copy of it. -/
def cancel (pool : TokenPool) (token : Token) : TokenPool :=
  ⟨pool.flags.setIfInBounds token true⟩

@[simp] theorem size_cancel (pool : TokenPool) (token : Token) :
    (pool.cancel token).flags.size = pool.flags.size := by
  simp [cancel]

/-- A token that has been handed out is cancelled once it is. -/
theorem isCancelled_cancel_self {pool : TokenPool} {token : Token}
    (h : token < pool.flags.size) : (pool.cancel token).isCancelled token = true := by
  simp [isCancelled, cancel, h]

end TokenPool

/-! ## Progress -/

/-- The sum of two amounts of work, or the greatest amount if the sum is beyond it. -/
def addSaturating (a b : UInt64) : UInt64 :=
  UInt64.ofNat (min (UInt64.size - 1) (a.toNat + b.toNat))

/-- The progress of a task, with the token that may cancel it. -/
structure Progress where
  /-- The amount of work in all. -/
  total : UInt64
  /-- The amount of work done. -/
  reached : UInt64
  /-- The token that is polled for cancellation. -/
  token : Token
  deriving DecidableEq

namespace Progress

/-- Nothing is known and nothing done yet. -/
def new (token : Token) : Progress := ⟨0, 0, token⟩

/-- Sets the amount of work in all, and counts from zero again. -/
def start (p : Progress) (total : UInt64) : Progress :=
  { p with total, reached := 0 }

/-- Adds to the amount of work done, which stays at the greatest amount once there. -/
def advance (p : Progress) (n : UInt64) : Progress :=
  { p with reached := addSaturating p.reached n }

end Progress

/-! ## Monitors -/

/-- What a task tells and asks whoever watches it; the state of the watcher is in `μ`. -/
structure Monitor (μ : Type) where
  /-- The amount of work in all becomes known. -/
  start : UInt64 → μ → μ
  /-- An amount of work is done. -/
  advance : UInt64 → μ → μ
  /-- Whether the task has to stop. -/
  isCancelled : μ → Bool

namespace Monitor

/-- Watches nothing and never cancels. -/
def silent : Monitor Unit where
  start := fun _ _ => ()
  advance := fun _ _ => ()
  isCancelled := fun _ => false

/-- Counts the work, and cancels once the token of the progress is cancelled. -/
def task : Monitor (Progress × TokenPool) where
  start := fun total (p, pool) => (p.start total, pool)
  advance := fun n (p, pool) => (p.advance n, pool)
  isCancelled := fun (p, pool) => pool.isCancelled p.token

/-- As `task`, and cancels its own token when an advance has brought it to `limit` or beyond. -/
def taskUntil (limit : UInt64) : Monitor (Progress × TokenPool) :=
  { task with
    advance := fun n (p, pool) =>
      let p := p.advance n
      (p, if limit ≤ p.reached then pool.cancel p.token else pool) }

end Monitor

/-! ## Histories of handles -/

/-- Tokens and progresses in the order in which they were made, over one pool of flags. -/
structure Handles where
  /-- The flags behind all tokens. -/
  pool : TokenPool
  /-- The tokens made so far. -/
  tokens : Array Token
  /-- The progresses made so far. -/
  tasks : Array Progress
  deriving DecidableEq

namespace Handles

/-- Nothing has been made. -/
def empty : Handles := ⟨.empty, #[], #[]⟩

/-- What can be done to a collection of handles; positions count from zero. -/
inductive Step
  /-- Makes a token with a flag of its own. -/
  | newToken
  /-- Copies a token. -/
  | copyToken (token : Nat)
  /-- Copies the token of a progress. -/
  | tokenOf (task : Nat)
  /-- Makes a progress on a copy of a token. -/
  | newTask (token : Nat)
  /-- Makes a progress on a token with a flag of its own. -/
  | newTaskAlone
  /-- Copies a progress, with what it has counted so far. -/
  | copyTask (task : Nat)
  /-- Cancels a token. -/
  | cancel (token : Nat)
  /-- Starts a progress. -/
  | start (task : Nat) (total : UInt64)
  /-- Advances a progress. -/
  | advance (task : Nat) (n : UInt64)
  deriving DecidableEq

/-- The handles after a step; a step on a handle that was never made does nothing. -/
def apply (h : Handles) : Step → Handles
  | .newToken =>
    let (token, pool) := h.pool.issue
    { h with pool, tokens := h.tokens.push token }
  | .copyToken t =>
    match h.tokens[t]? with
    | some token => { h with tokens := h.tokens.push token }
    | none => h
  | .tokenOf m =>
    match h.tasks[m]? with
    | some task => { h with tokens := h.tokens.push task.token }
    | none => h
  | .newTask t =>
    match h.tokens[t]? with
    | some token => { h with tasks := h.tasks.push (.new token) }
    | none => h
  | .newTaskAlone =>
    let (token, pool) := h.pool.issue
    { h with pool, tasks := h.tasks.push (.new token) }
  | .copyTask m =>
    match h.tasks[m]? with
    | some task => { h with tasks := h.tasks.push task }
    | none => h
  | .cancel t =>
    match h.tokens[t]? with
    | some token => { h with pool := h.pool.cancel token }
    | none => h
  | .start m total => { h with tasks := h.tasks.modify m (·.start total) }
  | .advance m n => { h with tasks := h.tasks.modify m (·.advance n) }

/-- The handles after a history of steps. -/
def run (h : Handles) (steps : List Step) : Handles :=
  steps.foldl apply h

@[simp] theorem run_append (h : Handles) (s t : List Step) :
    h.run (s ++ t) = (h.run s).run t := by
  simp [run]

end Handles

end LoopTable
