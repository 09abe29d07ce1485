import LoopTable.Proofs.Resolution.Run

/-!
# Calls that fail

A call of a scan fails when the image does not answer it with a byte or the table refuses it. Which
answer the table gives depends on what it was sent before, so failing is said of an event after the
writes before it (`Event.Fails`, `Writable.replay`).

Between two visits no call has failed, and the table is what the writes made of it
(`Went.answered`). A visit that meets a failure ends with it, so a call that fails is the last thing
a scan does (`eq_nil_of_fails`).
-/

namespace LoopTable

/-! ## Answers -/

/-- A table after some writes, accepted or not. -/
def Writable.replay {σ : Type} (w : Writable σ) (table : σ)
    (puts : List (UInt64 × List UInt8)) : σ :=
  puts.foldl (fun held put => (w.put put.1 put.2 held).2) table

theorem Writable.replay_snoc {σ : Type} (w : Writable σ) (table : σ)
    (puts : List (UInt64 × List UInt8)) (put : UInt64 × List UInt8) :
    w.replay table (puts ++ [put]) = (w.put put.1 put.2 (w.replay table puts)).2 := by
  rw [replay, List.foldl_append]
  rfl

/-- An event is a call that fails, when the table is in some state. -/
def Event.Fails {σ : Type} (region : Readable) (w : Writable σ) (held : σ) : Event → Prop
  | .read offset => ∃ fault, region.read offset = .error fault
  | .put offset bytes => ∃ fault, (w.put offset bytes held).1 = .error fault
  | _ => False

/-- All calls among some events are answered. -/
def AllAnswered {σ : Type} (region : Readable) (w : Writable σ) (table : σ)
    (events : List Event) : Prop :=
  ∀ before event after, events = before ++ event :: after →
    ¬ event.Fails region w (w.replay table (before.filterMap Event.put?))

/-- All calls among some events are answered, or all but the last one. -/
inductive AnsweredButLast {σ : Type} (region : Readable) (w : Writable σ) (table : σ) :
    List Event → Prop
  | all {events : List Event} : AllAnswered region w table events →
      AnsweredButLast region w table events
  | but {events : List Event} {last : Event} : AllAnswered region w table events →
      AnsweredButLast region w table (events ++ [last])

section AllAnswered

variable {σ : Type} {region : Readable} {w : Writable σ} {table : σ} {events : List Event}
  {event : Event}

theorem AllAnswered.nil : AllAnswered region w table [] := by
  intro before event after heq
  simp at heq

theorem AllAnswered.snoc (h : AllAnswered region w table events) (event : Event)
    (hevent : ¬ event.Fails region w (w.replay table (events.filterMap Event.put?))) :
    AllAnswered region w table (events ++ [event]) := by
  intro before event' after heq
  rcases List.eq_nil_or_concat after with rfl | ⟨after, last, rfl⟩
  · obtain ⟨rfl, hlast⟩ := List.append_inj' heq rfl
    cases hlast
    exact hevent
  · rw [List.concat_eq_append, ← List.cons_append, ← List.append_assoc] at heq
    exact h before event' after (List.append_inj' heq rfl).1

/-- When all calls but the last are answered, nothing follows one that fails. -/
theorem AnsweredButLast.eq_nil_of_fails (h : AnsweredButLast region w table events)
    {before after : List Event} (heq : events = before ++ event :: after)
    (hfails : event.Fails region w (w.replay table (before.filterMap Event.put?))) :
    after = [] := by
  cases h with
  | all hall => exact absurd hfails (hall before event after heq)
  | but hall =>
    rcases List.eq_nil_or_concat after with rfl | ⟨rest, final, rfl⟩
    · rfl
    · rw [List.concat_eq_append, ← List.cons_append, ← List.append_assoc] at heq
      exact absurd hfails (hall before event rest (List.append_inj' heq rfl).1)

end AllAnswered

/-! ## Answers in the course of a scan -/

/-- No call of a scan has failed so far, and its table is what its writes have made of it. -/
structure Scan.Answered {σ μ : Type} (region : Readable) (w : Writable σ) (table : σ)
    (s : Scan σ μ) : Prop where
  /-- No call has failed. -/
  all : AllAnswered region w table s.events.toList
  /-- The table is what the writes have made of it. -/
  table_eq : s.table = w.replay table s.puts

namespace Scan.Answered

variable {σ μ : Type} {region : Readable} {w : Writable σ} {table : σ} {s : Scan σ μ}

theorem begun (region : Readable) (w : Writable σ) (m : Monitor μ) (table : σ) (monitor : μ) :
    Answered region w table (.begun region m table monitor) where
  all := (AllAnswered.nil.snoc (.started _) id).snoc (.logged _) id
  table_eq := rfl

theorem logged (h : Answered region w table s) (record : Record) :
    AllAnswered region w table (s.noted (.logged record)).events.toList := by
  rw [noted, Array.toList_push]
  exact h.all.snoc _ id

theorem polled (h : Answered region w table s) (answer : Bool) :
    AllAnswered region w table (s.noted (.polled answer)).events.toList := by
  rw [noted, Array.toList_push]
  exact h.all.snoc _ id

/-- All calls up to the read of a byte are answered. -/
theorem before_read (h : Answered region w table s) :
    AllAnswered region w table (s.events.toList ++ [.polled false] ++ [.advanced 1]) :=
  (h.all.snoc (.polled false) id).snoc (.advanced 1) id

theorem asked (h : Answered region w table s) (m : Monitor μ) {address : UInt64} {byte : UInt8}
    (hread : region.read address = .ok byte) :
    Answered region w table (s.asked m address) where
  all := by
    rw [events_asked]
    refine h.before_read.snoc _ ?_
    rintro ⟨fault, hfault⟩
    rw [hread] at hfault
    cases hfault
  table_eq := by
    rw [puts_asked]
    exact h.table_eq

theorem taken (h : Answered region w table s) : Answered region w table s.taken :=
  ⟨h.all, h.table_eq⟩

theorem wordSent (h : Answered region w table s) {address destination : UInt64}
    (hanswer : s.wordAnswer w address destination = .ok ()) :
    Answered region w table (s.wordSent w address destination) where
  all := by
    rw [Scan.wordSent, Array.toList_push]
    refine h.all.snoc _ ?_
    rintro ⟨fault, hfault⟩
    have hheld : w.replay table (s.events.toList.filterMap Event.put?) = s.table := h.table_eq.symm
    rw [hheld] at hfault
    rw [wordAnswer, hfault] at hanswer
    cases hanswer
  table_eq := by
    rw [puts_wordSent, Writable.replay_snoc, ← h.table_eq]
    rfl

theorem resolved (h : Answered region w table s) (opening closing : UInt64) :
    Answered region w table (s.resolved opening closing) where
  all := by
    rw [Scan.resolved, Array.toList_push]
    exact h.all.snoc _ id
  table_eq := by
    rw [puts_resolved]
    exact h.table_eq

end Scan.Answered

section Run

variable {σ μ : Type} {region : Readable} {w : Writable σ} {m : Monitor μ} {table : σ}
  {monitor : μ} {s s' : Scan σ μ}

/-- As long as a run goes well, all its calls are answered. -/
theorem Went.answered {bytes : List UInt8} {opened : List Nat} {closed : List (Nat × Nat)}
    (h : Went region w m table monitor bytes opened closed s) : s.Answered region w table := by
  induction h with
  | start => exact .begun region w m table monitor
  | inert _ _ _ hread _ ih => exact ih.asked m hread
  | opened _ _ _ hread ih =>
    have hasked := ih.asked m hread
    exact ⟨hasked.all, hasked.table_eq⟩
  | closed _ _ _ hread hsettled ih =>
    cases hsettled with
    | done _ hend _ hstart =>
      exact (((ih.asked m hread).taken.wordSent hend).wordSent hstart).resolved _ _

/-- The end of a loop that cannot be settled has one call that fails, the last one, or none. -/
theorem Settled.answered {opening closing : UInt64} {cause : ResolutionError}
    (h : Settled w opening closing s (.error cause s')) (hs : s.Answered region w table) :
    AnsweredButLast region w table s'.events.toList := by
  cases h with
  | farStart => exact .all hs.all
  | farEnd _ hend _ => exact .all (hs.wordSent hend).all
  | faultAtEnd _ _ =>
    rw [Scan.wordSent, Array.toList_push]
    exact .but hs.all
  | faultAtStart _ hend _ _ =>
    rw [Scan.wordSent, Array.toList_push]
    exact .but (hs.wordSent hend).all

/-- All calls of a scan but the last are answered. -/
theorem answered_resolve (region : Readable) (w : Writable σ) (m : Monitor μ) (table : σ)
    (monitor : μ) :
    AnsweredButLast region w table (resolve region w m table monitor).events := by
  have hended := ended_resolve region w m table monitor
  generalize resolve region w m table monitor = outcome at hended ⊢
  cases hended with
  | tooSmall => exact .all .nil
  | leftOpen _ hwent _ | finished _ hwent _ => exact .all (hwent.answered.logged _)
  | stopped _ hwent _ hvisited =>
    cases hvisited with
    | cancelled => exact .all (hwent.answered.polled true)
    | unreadable =>
      show AnsweredButLast region w table (Scan.asked m _ _).events.toList
      rw [Scan.events_asked]
      exact .but hwent.answered.before_read
    | stray _ hread _ => exact .all ((hwent.answered.asked m hread).taken.logged _)
    | closed _ hread _ hsettled =>
      exact hsettled.answered (hwent.answered.asked m hread).taken

/-- A call that fails is the last thing a scan does. -/
theorem eq_nil_of_fails {before after : List Event} {event : Event}
    (heq : (resolve region w m table monitor).events = before ++ event :: after)
    (hfails : event.Fails region w (w.replay table (before.filterMap Event.put?))) :
    after = [] :=
  (answered_resolve region w m table monitor).eq_nil_of_fails heq hfails

/-- A write that another one follows was accepted. -/
theorem put_accepted {before after : List (UInt64 × List UInt8)} {put : UInt64 × List UInt8}
    (heq : (resolve region w m table monitor).puts = before ++ put :: after) (hafter : after ≠ []) :
    (w.put put.1 put.2 (w.replay table before)).1 = .ok () := by
  obtain ⟨events, rest, hevents, hbefore, hrest⟩ := List.filterMap_eq_append_iff.1 heq
  obtain ⟨others, event, later, rfl, hothers, hput, rfl⟩ := List.filterMap_eq_cons_iff.1 hrest
  cases hanswer : (w.put put.1 put.2 (w.replay table before)).1 with
  | ok => rfl
  | error fault =>
    have hfails : event.Fails region w
        (w.replay table ((events ++ others).filterMap Event.put?)) := by
      rw [List.filterMap_append, hbefore, List.filterMap_eq_nil_iff.2 hothers, List.append_nil]
      cases event with
      | put offset bytes =>
        cases hput
        exact ⟨fault, hanswer⟩
      | started | polled | advanced | read | logged => cases hput
    have hlater : later = [] :=
      eq_nil_of_fails (hevents.trans (List.append_assoc ..).symm) hfails
    rw [hlater] at hafter
    exact absurd rfl hafter

end Run

end LoopTable
