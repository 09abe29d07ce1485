import LoopTable.Proofs.Resolution.Calls
import LoopTable.Proofs.Resolution.Ending

/-!
# Tables made by writes

However a scan ends, its table is what the writes it asked for have made of the table it was given
(`table_eq_replay`). So two scans that ask for the same writes leave the same table, and what can be
said about lists of writes can be said about tables.

* `Bytes.AgreeOutside` compares two tables outside of the bytes that some writes are sent to. Writes
  that lie inside both tables make them equal (`Bytes.AgreeOutside.replay_eq`).
* `Writable.Confined` is what even a region that fails can be expected to do: to leave alone the
  bytes it was not asked to write. Its writes change no others (`Writable.Confined.replay`).
-/

namespace LoopTable

theorem Writable.replay_cons {σ : Type} (w : Writable σ) (table : σ) (put : UInt64 × List UInt8)
    (puts : List (UInt64 × List UInt8)) :
    w.replay table (put :: puts) = w.replay (w.put put.1 put.2 table).2 puts := rfl

/-! ## Tables that differ where writes are sent to -/

/-- A write sends a byte to some position. -/
def Covers (put : UInt64 × List UInt8) (i : Nat) : Prop :=
  put.1.toNat ≤ i ∧ i < put.1.toNat + put.2.length

/-- Two tables of one size that agree at every byte to which none of some writes is sent. -/
structure Bytes.AgreeOutside (puts : List (UInt64 × List UInt8)) (left right : Bytes) : Prop where
  /-- The size is the same. -/
  size_eq : left.size = right.size
  /-- A byte that is not written is the same. -/
  frame : ∀ i, (∀ put ∈ puts, ¬ Covers put i) → left[i]? = right[i]?

namespace Bytes.AgreeOutside

variable {puts : List (UInt64 × List UInt8)} {left middle right : Bytes}

theorem refl (puts : List (UInt64 × List UInt8)) (bytes : Bytes) : AgreeOutside puts bytes bytes :=
  ⟨rfl, fun _ _ => rfl⟩

theorem trans (h : AgreeOutside puts left middle) (h' : AgreeOutside puts middle right) :
    AgreeOutside puts left right :=
  ⟨h.size_eq.trans h'.size_eq, fun i hi => (h.frame i hi).trans (h'.frame i hi)⟩

theorem of_subset {fewer : List (UInt64 × List UInt8)} (h : AgreeOutside fewer left right)
    (hsub : fewer ⊆ puts) : AgreeOutside puts left right :=
  ⟨h.size_eq, fun i hi => h.frame i fun put hput => hi put (hsub hput)⟩

/-- A write that lies inside two tables leaves no difference where it is sent to. -/
theorem put {put : UInt64 × List UInt8} (h : AgreeOutside (put :: puts) left right)
    (hfits : put.1.toNat + put.2.length ≤ right.size) :
    AgreeOutside puts (left.put put.1 put.2).2 (right.put put.1 put.2).2 where
  size_eq := by rw [size_put, size_put, h.size_eq]
  frame := by
    intro i hi
    have hfits' : put.1.toNat + put.2.length ≤ left.size := h.size_eq ▸ hfits
    rw [put_of_le hfits, put_of_le hfits', getElem?_overwrite _ _ hfits,
      getElem?_overwrite _ _ hfits']
    by_cases hcovers : put.1.toNat ≤ i ∧ i < put.1.toNat + put.2.length
    · rw [if_pos hcovers, if_pos hcovers]
    · rw [if_neg hcovers, if_neg hcovers]
      exact h.frame i (List.forall_mem_cons.2 ⟨hcovers, hi⟩)

/-- The writes outside of which two tables agree make them equal. -/
theorem replay_eq (h : AgreeOutside puts left right)
    (hfits : ∀ put ∈ puts, put.1.toNat + put.2.length ≤ right.size) :
    Writable.bytes.replay left puts = Writable.bytes.replay right puts := by
  induction puts generalizing left right with
  | nil => exact Array.ext_getElem? fun i => h.frame i (by simp)
  | cons put puts ih =>
    have hnext := h.put (hfits put (List.mem_cons_self ..))
    rw [Writable.replay_cons, Writable.replay_cons]
    refine ih hnext fun later hlater => ?_
    exact (size_put right put.1 put.2).symm ▸ hfits later (List.mem_cons_of_mem _ hlater)

end Bytes.AgreeOutside

/-! ## Writes to regions -/

/-- A region that leaves alone every byte it is not asked to write, whether it accepts a write or
not. -/
structure Writable.Confined {σ : Type} (w : Writable σ) (view : σ → Bytes) : Prop where
  /-- It stores as many bytes as before. -/
  size_put : ∀ offset data s, (view (w.put offset data s).2).size = (view s).size
  /-- A byte outside of the write is as it was. -/
  frame : ∀ offset data s i, ¬ Covers (offset, data) i →
    (view (w.put offset data s).2)[i]? = (view s)[i]?

namespace Writable

variable {σ : Type} {w : Writable σ} {view : σ → Bytes}

theorem Honest.confined (hw : w.Honest view) : w.Confined view where
  size_put := by
    intro offset data s
    rw [hw.view_put, Bytes.size_put]
  frame := by
    intro offset data s i hi
    rw [hw.view_put]
    rcases Nat.lt_or_ge (view s).size (offset.toNat + data.length) with hlt | hle
    · rw [Bytes.put_of_lt hlt]
    · rw [Bytes.put_of_le hle, Bytes.getElem?_overwrite _ _ hle]
      exact if_neg hi

theorem Confined.failingFrom (hw : w.Confined view) (start : UInt64) (fault : Fault) :
    (w.failingFrom start fault).Confined view where
  size_put := by
    intro offset data s
    by_cases hstart : start ≤ offset
    · simp [Writable.failingFrom, hstart]
    · simpa [Writable.failingFrom, hstart] using hw.size_put offset data s
  frame := by
    intro offset data s i hi
    by_cases hstart : start ≤ offset
    · simp [Writable.failingFrom, hstart]
    · simpa [Writable.failingFrom, hstart] using hw.frame offset data s i hi

/-- Writes to a confined region change no bytes but those they are sent to. -/
theorem Confined.replay (hw : w.Confined view) (s : σ) (puts : List (UInt64 × List UInt8)) :
    Bytes.AgreeOutside puts (view (w.replay s puts)) (view s) := by
  induction puts generalizing s with
  | nil => exact .refl _ _
  | cons put puts ih =>
    rw [replay_cons]
    refine .trans ((ih (w.put put.1 put.2 s).2).of_subset (List.subset_cons_self ..)) ?_
    exact ⟨hw.size_put _ _ _, fun i hi => hw.frame _ _ _ i (hi put (List.mem_cons_self ..))⟩

/-- Writes to an honest region are writes to the bytes it stores. -/
theorem Honest.view_replay (hw : w.Honest view) (s : σ) (puts : List (UInt64 × List UInt8)) :
    view (w.replay s puts) = Writable.bytes.replay (view s) puts := by
  induction puts generalizing s with
  | nil => rfl
  | cons put puts ih =>
    rw [replay_cons, replay_cons, ih, hw.view_put]
    rfl

end Writable

/-! ## The table that a scan leaves -/

section Run

variable {σ μ : Type} {region : Readable} {w : Writable σ} {m : Monitor μ} {table : σ} {monitor : μ}

/-- A word sent to the table is one write more, whatever the table answers. -/
theorem Scan.table_eq_wordSent {s : Scan σ μ} (h : s.table = w.replay table s.puts)
    (address destination : UInt64) :
    (s.wordSent w address destination).table =
      w.replay table (s.wordSent w address destination).puts := by
  rw [puts_wordSent, Writable.replay_snoc, ← h]
  rfl

/-- The end of a loop that cannot be settled leaves what its writes make of the table. -/
theorem Settled.table_eq_replay {opening closing : UInt64} {s s' : Scan σ μ}
    {cause : ResolutionError} (h : Settled w opening closing s (.error cause s'))
    (hs : s.table = w.replay table s.puts) : s'.table = w.replay table s'.puts := by
  cases h with
  | farStart => exact hs
  | faultAtEnd | farEnd => exact Scan.table_eq_wordSent hs _ _
  | faultAtStart => exact Scan.table_eq_wordSent (Scan.table_eq_wordSent hs _ _) _ _

/-- However a scan ends, its table is what its writes have made of it. -/
theorem table_eq_replay (region : Readable) (w : Writable σ) (m : Monitor μ) (table : σ)
    (monitor : μ) :
    (resolve region w m table monitor).table =
      w.replay table (resolve region w m table monitor).puts := by
  have hended := ended_resolve region w m table monitor
  generalize resolve region w m table monitor = outcome at hended ⊢
  cases hended with
  | tooSmall => rfl
  | leftOpen _ hwent _ =>
    rw [Outcome.puts_ofResult_error, Scan.puts_logged]
    exact hwent.answered.table_eq
  | finished _ hwent _ =>
    rw [Outcome.puts_ofResult_ok, Scan.puts_logged]
    exact hwent.answered.table_eq
  | stopped _ hwent _ hvisited =>
    have htable := hwent.answered.table_eq
    rw [Outcome.puts_ofResult_error]
    cases hvisited with
    | cancelled =>
      rw [Scan.puts_polled]
      exact htable
    | unreadable =>
      rw [Scan.puts_asked]
      exact htable
    | stray =>
      rw [Scan.puts_logged, Scan.puts_taken, Scan.puts_asked]
      exact htable
    | closed _ _ _ hsettled =>
      refine hsettled.table_eq_replay ?_
      rw [Scan.puts_taken, Scan.puts_asked]
      exact htable

end Run

end LoopTable
