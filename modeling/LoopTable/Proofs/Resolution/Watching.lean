import LoopTable.Proofs.Resolution.Run

/-!
# Scans under two monitors

A scan has nothing to do with its monitor but what it tells it and what it asks. So two monitors that
answer alike cannot be told apart by the scans they watch: `Monitor.Agrees` says that two monitors do
so as long as their states are related, and `alike_resolve` that their scans then give the same
result, leave the same table, do the same, and leave related monitors.

With one monitor and the states that have some property, this tells what a scan makes of its monitor
(`monitor_resolve`).
-/

namespace LoopTable

/-- Two monitors give the same answers in related states, and whatever both are told leaves their
states related. -/
structure Monitor.Agrees {μ ν : Type} (m : Monitor μ) (n : Monitor ν) (related : μ → ν → Prop) :
    Prop where
  /-- The amount of work in all may be told. -/
  start : ∀ total s t, related s t → related (m.start total s) (n.start total t)
  /-- Work done may be told. -/
  advance : ∀ amount s t, related s t → related (m.advance amount s) (n.advance amount t)
  /-- Both ask to stop, or neither does. -/
  isCancelled_eq : ∀ s t, related s t → n.isCancelled t = m.isCancelled s

/-- A monitor gives the same answers in the same state. -/
theorem Monitor.agrees_self {μ : Type} (m : Monitor μ) : m.Agrees m Eq where
  start := by
    rintro total s _ rfl
    rfl
  advance := by
    rintro amount s _ rfl
    rfl
  isCancelled_eq := by
    rintro s _ rfl
    rfl

namespace Scan

section Alike

variable {σ μ ν α β : Type} {related : μ → ν → Prop}

/-- Two states of a scan differ in their monitors at most, and these are related. -/
inductive Alike (related : μ → ν → Prop) : Scan σ μ → Scan σ ν → Prop
  | mk {table : σ} {a : μ} {b : ν} {pending : Pending} {pairs : UInt64} {events : Array Event} :
      related a b → Alike related ⟨table, a, pending, pairs, events⟩ ⟨table, b, pending, pairs, events⟩

/-- Two steps end alike. -/
inductive EndAlike (related : μ → ν → Prop) : EStateM.Result ResolutionError (Scan σ μ) α →
    EStateM.Result ResolutionError (Scan σ ν) α → Prop
  | ok {s : Scan σ μ} {t : Scan σ ν} (value : α) : Alike related s t →
      EndAlike related (.ok value s) (.ok value t)
  | error {s : Scan σ μ} {t : Scan σ ν} (cause : ResolutionError) : Alike related s t →
      EndAlike related (.error cause s) (.error cause t)

/-- Two steps from states that are alike end alike. -/
structure StepsAlike (related : μ → ν → Prop) (x : ScanM σ μ α) (y : ScanM σ ν α) : Prop where
  /-- Wherever they begin. -/
  run : ∀ s t, Alike related s t → EndAlike related (x.run s) (y.run t)

theorem StepsAlike.pure (value : α) :
    StepsAlike related (pure value : ScanM σ μ α) (pure value : ScanM σ ν α) :=
  ⟨fun _ _ hst => .ok value hst⟩

theorem StepsAlike.throw (cause : ResolutionError) :
    StepsAlike related (throw cause : ScanM σ μ α) (throw cause : ScanM σ ν α) :=
  ⟨fun _ _ hst => .error cause hst⟩

theorem StepsAlike.bind {x : ScanM σ μ α} {y : ScanM σ ν α} {f : α → ScanM σ μ β}
    {g : α → ScanM σ ν β} (h : StepsAlike related x y)
    (hnext : ∀ value, StepsAlike related (f value) (g value)) :
    StepsAlike related (x >>= f) (y >>= g) := by
  refine ⟨fun s t hst => ?_⟩
  have hfirst := h.run s t hst
  rw [EStateM.run_bind, EStateM.run_bind]
  generalize x.run s = first at hfirst ⊢
  generalize y.run t = second at hfirst ⊢
  cases hfirst with
  | ok value hst => exact (hnext value).run _ _ hst
  | error cause hst => exact .error cause hst

theorem StepsAlike.ite {c : Prop} [Decidable c] {x x' : ScanM σ μ α} {y y' : ScanM σ ν α}
    (h : StepsAlike related x y) (h' : StepsAlike related x' y') :
    StepsAlike related (if c then x else x') (if c then y else y') := by
  by_cases hc : c
  · rwa [if_pos hc, if_pos hc]
  · rwa [if_neg hc, if_neg hc]

/-! ### Steps that do not look at the monitor -/

theorem stepsAlike_note (event : Event) :
    StepsAlike related (note event : ScanM σ μ Unit) (note event : ScanM σ ν Unit) := by
  refine ⟨fun _ _ ⟨h⟩ => ?_⟩
  exact .ok () (.mk h)

theorem stepsAlike_openLoop (address : UInt64) :
    StepsAlike related (openLoop address : ScanM σ μ Unit) (openLoop address : ScanM σ ν Unit) := by
  refine ⟨fun _ _ ⟨h⟩ => ?_⟩
  exact .ok () (.mk h)

theorem stepsAlike_takePending :
    StepsAlike related (takePending : ScanM σ μ (Option UInt64)) (takePending : ScanM σ ν _) := by
  refine ⟨fun _ _ ⟨h⟩ => ?_⟩
  exact .ok _ (.mk h)

theorem stepsAlike_countPair :
    StepsAlike related (countPair : ScanM σ μ Unit) (countPair : ScanM σ ν Unit) := by
  refine ⟨fun _ _ ⟨h⟩ => ?_⟩
  exact .ok () (.mk h)

theorem stepsAlike_putDestination (w : Writable σ) (address destination : UInt64) :
    StepsAlike related (putDestination w address destination : ScanM σ μ Unit)
      (putDestination w address destination : ScanM σ ν Unit) := by
  refine ⟨fun _ _ ⟨h⟩ => ?_⟩
  simp only [run_putDestination, wordAnswer]
  by_cases hfar : destination > Word.maxDestination
  · rw [if_pos hfar, if_pos hfar]
    exact .error _ (.mk h)
  · rw [if_neg hfar, if_neg hfar]
    cases (w.put (address * Word.size) (Word.encode destination.toUInt16) _).1 with
    | error fault => exact .error _ (.mk h)
    | ok => exact .ok () (.mk h)

theorem stepsAlike_closeLoop (w : Writable σ) (address : UInt64) :
    StepsAlike related (closeLoop w address : ScanM σ μ Unit)
      (closeLoop w address : ScanM σ ν Unit) := by
  refine .bind stepsAlike_takePending fun innermost => ?_
  cases innermost with
  | none => exact .bind (stepsAlike_note _) fun _ => .throw _
  | some opening =>
    exact .bind (stepsAlike_putDestination w _ _) fun _ =>
      .bind (stepsAlike_putDestination w _ _) fun _ =>
      .bind stepsAlike_countPair fun _ => stepsAlike_note _

theorem stepsAlike_conclude (instructions : UInt64) :
    StepsAlike related (conclude instructions : ScanM σ μ Statistics)
      (conclude instructions : ScanM σ ν Statistics) := by
  refine ⟨fun _ _ (@Alike.mk _ _ _ _ table a b pending pairs events h) => ?_⟩
  rw [run_conclude, run_conclude]
  cases pending.oldest? with
  | none => exact .ok _ (.mk h)
  | some oldest => exact .error _ (.mk h)

/-! ### Steps that tell or ask the monitor -/

variable {m : Monitor μ} {n : Monitor ν}

theorem stepsAlike_start (hagrees : m.Agrees n related) (total : UInt64) :
    StepsAlike related (start m total : ScanM σ μ Unit) (start n total : ScanM σ ν Unit) := by
  refine ⟨fun _ _ ⟨h⟩ => ?_⟩
  exact .ok () (.mk (hagrees.start total _ _ h))

theorem stepsAlike_visit (hagrees : m.Agrees n related) (image : Readable) (w : Writable σ)
    (address : UInt64) : StepsAlike related (visit image w m address) (visit image w n address) := by
  refine ⟨fun _ _ ⟨h⟩ => ?_⟩
  have hasked := hagrees.advance 1 _ _ h
  rw [run_visit, run_visit, hagrees.isCancelled_eq _ _ h]
  split
  · exact .error _ (.mk h)
  · cases image.read address with
    | error fault => exact .error _ (.mk hasked)
    | ok byte =>
      refine StepsAlike.run (.ite ?_ (.ite ?_ (.pure ()))) _ _ (.mk hasked)
      · exact stepsAlike_openLoop address
      · exact stepsAlike_closeLoop w address

theorem stepsAlike_visitAll (hagrees : m.Agrees n related) (image : Readable) (w : Writable σ)
    (count : Nat) (address : UInt64) :
    StepsAlike related (visitAll image w m count address) (visitAll image w n count address) := by
  induction count generalizing address with
  | zero => exact .pure ()
  | succ count ih => exact .bind (stepsAlike_visit hagrees image w address) fun _ => ih _

theorem stepsAlike_whole (hagrees : m.Agrees n related) (image : Readable) (w : Writable σ) :
    StepsAlike related (whole image w m) (whole image w n) :=
  .bind (stepsAlike_start hagrees _) fun _ => .bind (stepsAlike_note _) fun _ =>
    .bind (stepsAlike_visitAll hagrees image w _ _) fun _ => stepsAlike_conclude _

end Alike

end Scan

/-! ## Whole scans -/

section Resolve

variable {σ μ ν : Type} {related : μ → ν → Prop} {m : Monitor μ} {n : Monitor ν}

/-- Two scans differ in their monitors at most, and these are related. -/
inductive Outcome.Alike (related : μ → ν → Prop) : Outcome σ μ → Outcome σ ν → Prop
  | mk {result : Except ResolutionError Statistics} {table : σ} {a : μ} {b : ν}
      {events : List Event} : related a b →
      Alike related ⟨result, table, a, events⟩ ⟨result, table, b, events⟩

/-- Monitors that answer alike watch the same scan. -/
theorem alike_resolve (hagrees : m.Agrees n related) (image : Readable) (w : Writable σ)
    (table : σ) {s : μ} {t : ν} (h : related s t) :
    (resolve image w m table s).Alike related (resolve image w n table t) := by
  rw [resolve, resolve]
  by_cases hsize : w.size table / Word.size < image.size
  · rw [if_pos hsize, if_pos hsize]
    exact .mk h
  · rw [if_neg hsize, if_neg hsize]
    have hend := (Scan.stepsAlike_whole hagrees image w).run (.initial table s)
      (.initial table t) (.mk h)
    generalize (Scan.whole image w m).run (.initial table s) = first at hend ⊢
    generalize (Scan.whole image w n).run (.initial table t) = second at hend ⊢
    cases hend with
    | ok _ hst =>
      obtain ⟨h⟩ := hst
      exact .mk h
    | error _ hst =>
      obtain ⟨h⟩ := hst
      exact .mk h

/-- What a monitor keeps whatever it is told, it keeps in a scan. -/
theorem monitor_resolve {holds : μ → Prop} (hstart : ∀ total s, holds s → holds (m.start total s))
    (hadvance : ∀ amount s, holds s → holds (m.advance amount s)) (image : Readable)
    (w : Writable σ) (table : σ) {s : μ} (hs : holds s) :
    holds (resolve image w m table s).monitor := by
  have hagrees : m.Agrees m fun a b => a = b ∧ holds b := by
    refine ⟨?_, ?_, ?_⟩
    · rintro total a _ ⟨rfl, ha⟩
      exact ⟨rfl, hstart total a ha⟩
    · rintro amount a _ ⟨rfl, ha⟩
      exact ⟨rfl, hadvance amount a ha⟩
    · rintro a _ ⟨rfl, -⟩
      rfl
  have halike := alike_resolve hagrees image w table (s := s) (t := s) ⟨rfl, hs⟩
  generalize resolve image w m table s = outcome at halike ⊢
  cases halike with
  | mk h => exact h.2

end Resolve

end LoopTable
