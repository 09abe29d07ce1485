/-!
# Loops waiting to be closed

While an image is scanned, the addresses of the loops opened so far and not yet closed are kept on
a stack, innermost on top. `Pending` is that stack together with the greatest depth it has had.
-/

namespace LoopTable

/-- The addresses of the loops that are open, and the greatest depth so far. -/
structure Pending where
  /-- The addresses, outermost first. -/
  addresses : Array UInt64
  /-- The greatest number of addresses held at one time. -/
  maxDepth : Nat
  deriving DecidableEq

namespace Pending

/-- No loop is open. -/
def empty : Pending := ⟨#[], 0⟩

/-- The number of open loops. -/
def depth (p : Pending) : Nat :=
  p.addresses.size

/-- Whether no loop is open. -/
def isEmpty (p : Pending) : Bool :=
  p.addresses.isEmpty

/-- The address of the innermost open loop. -/
def peek? (p : Pending) : Option UInt64 :=
  p.addresses.back?

/-- The address of the outermost open loop. -/
def oldest? (p : Pending) : Option UInt64 :=
  p.addresses[0]?

/-- Opens a loop inside of all open ones. -/
def push (p : Pending) (address : UInt64) : Pending :=
  match p with
  | ⟨addresses, maxDepth⟩ =>
    let addresses := addresses.push address
    let depth := addresses.size
    ⟨addresses, max maxDepth depth⟩

/-- Closes the innermost open loop and gives its address; the greatest depth stays. -/
def pop (p : Pending) : Option UInt64 × Pending :=
  match p with
  | ⟨addresses, maxDepth⟩ =>
    let innermost := addresses.back?
    (innermost, ⟨addresses.pop, maxDepth⟩)

@[simp] theorem addresses_push (p : Pending) (a : UInt64) :
    (p.push a).addresses = p.addresses.push a := rfl

@[simp] theorem maxDepth_push (p : Pending) (a : UInt64) :
    (p.push a).maxDepth = max p.maxDepth (p.depth + 1) := by
  simp [push, depth]

@[simp] theorem addresses_pop (p : Pending) : p.pop.2.addresses = p.addresses.pop := rfl

/-- What was pushed last is popped first. -/
theorem pop_push (p : Pending) (a : UInt64) :
    (p.push a).pop = (some a, { p with maxDepth := max p.maxDepth (p.depth + 1) }) := by
  simp [push, pop, depth]

end Pending

end LoopTable
