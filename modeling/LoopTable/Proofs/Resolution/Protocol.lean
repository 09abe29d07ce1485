import Mathlib.Data.List.Basic
import LoopTable.Proofs.Resolution.Footprint
import LoopTable.Proofs.Resolution.Polling

/-!
# The calls of a scan

A scan tells its monitor the amount of work once. Then it visits the addresses of its image from
zero on. At each of them it polls, tells one piece of work and reads the byte. Only behind the end
of a loop that was opened before, it sends the word of that end, and then the word of the start.

`Protocol` says so for a whole scan, over any regions and under any monitor, with the answers that
make it go on or stop (`resolve_protocol`). It is put together as a scan is:

* `VisitCalls` are the calls of visits that all go well,
* `UnsettledCalls` those at the end of a loop that cannot be dealt with, and `StopCalls` those of
  a visit that fails.

No slot of the table is written twice, since the ends of the loops of one image all differ
(`Course.nodup_slots`).
-/

namespace LoopTable

/-! ## Single calls -/

/-- The calls by which a visit asks for the byte at an address. -/
def askCalls (address : Nat) : List Event :=
  [.polled false, .advanced 1, .read (.ofNat address)]

/-- The call that sends a destination to the slot of an address. -/
def wordCall (address destination : Nat) : Event :=
  .put (.ofNat (2 * address)) (Word.encode (.ofNat destination))

/-- The answer of a table to that call, when some calls were made before. -/
def Writable.answer {σ : Type} (w : Writable σ) (table : σ) (calls : List Event)
    (address destination : Nat) : Except Fault Unit :=
  (w.put (.ofNat (2 * address)) (Word.encode (.ofNat destination))
    (w.replay table (calls.filterMap Event.put?))).1

theorem Scan.wordPut_ofNat (address destination : Nat) :
    wordPut (.ofNat address) (.ofNat destination) =
      (.ofNat (2 * address), Word.encode (.ofNat destination)) := by
  have hoffset : UInt64.ofNat address * Word.size = .ofNat (2 * address) := by
    rw [Nat.mul_comm, UInt64.ofNat_mul]
    rfl
  rw [wordPut, hoffset, UInt64.toUInt16_ofNat']

namespace Scan

variable {σ μ : Type} (s : Scan σ μ) (m : Monitor μ) (w : Writable σ)

/-- The calls made so far. -/
def calls : List Event :=
  s.events.toList.filter fun
    | .logged _ => false
    | _ => true

@[simp] theorem calls_logged (record : Record) : (s.noted (.logged record)).calls = s.calls := by
  simp [calls, noted]

@[simp] theorem calls_polled (answer : Bool) :
    (s.noted (.polled answer)).calls = s.calls ++ [.polled answer] := by
  simp [calls, noted]

@[simp] theorem calls_asked (address : Nat) :
    (s.asked m (.ofNat address)).calls = s.calls ++ askCalls address := by
  simp [calls, events_asked, askCalls]

@[simp] theorem calls_opened (address : UInt64) : (s.opened address).calls = s.calls := rfl
@[simp] theorem calls_taken : s.taken.calls = s.calls := rfl

@[simp] theorem calls_wordSent (address destination : Nat) :
    (s.wordSent w (.ofNat address) (.ofNat destination)).calls =
      s.calls ++ [wordCall address destination] := by
  have hput := Prod.mk.inj (wordPut_ofNat address destination)
  simp [calls, wordSent, wordCall, ← hput.1, ← hput.2]

@[simp] theorem calls_resolved (opening closing : UInt64) :
    (s.resolved opening closing).calls = s.calls := by
  simp [calls, resolved]

theorem filterMap_put?_calls : s.calls.filterMap Event.put? = s.puts := by
  rw [calls, puts, List.filterMap_filter]
  congr 1
  funext event
  cases event <;> rfl

/-- Where the table is what the writes have made of it, its answers follow from the calls. -/
theorem wordAnswer_eq {table : σ} (h : s.table = w.replay table s.puts)
    (address destination : Nat) :
    s.wordAnswer w (.ofNat address) (.ofNat destination) =
      w.answer table s.calls address destination := by
  have hput := Prod.mk.inj (wordPut_ofNat address destination)
  rw [wordAnswer, Writable.answer, filterMap_put?_calls, ← h, hput.1, hput.2]

end Scan

@[simp] theorem Outcome.calls_ofResult_error {σ μ : Type} (cause : ResolutionError)
    (s : Scan σ μ) : (ofResult (.error cause s)).calls = s.calls := rfl

@[simp] theorem Outcome.calls_ofResult_ok {σ μ : Type} (statistics : Statistics)
    (s : Scan σ μ) : (ofResult (.ok statistics s)).calls = s.calls := rfl

/-! ## The grammar of calls -/

section Grammar

variable {σ μ : Type} (region : Readable) (w : Writable σ) (m : Monitor μ) (table : σ)
  (monitor : μ)

/-- The calls from the beginning of a scan on, when all visits have gone well, by the bytes read. -/
inductive VisitCalls : List UInt8 → List Event → Prop
  /-- First the monitor is told the amount of work. -/
  | start : VisitCalls [] [.started region.size]
  /-- A byte that closes no loop is asked for and nothing else. -/
  | plain {bytes : List UInt8} {byte : UInt8} {calls : List Event} : VisitCalls bytes calls →
      m.isCancelled (m.after region.size monitor bytes.length) = false →
      region.read (.ofNat bytes.length) = .ok byte → byte ≠ closeByte →
      VisitCalls (bytes ++ [byte]) (calls ++ askCalls bytes.length)
  /-- Behind the end of a loop its own word is sent, then the word of the start. -/
  | close {bytes : List UInt8} {o : Nat} {calls : List Event} : VisitCalls bytes calls →
      m.isCancelled (m.after region.size monitor bytes.length) = false →
      region.read (.ofNat bytes.length) = .ok closeByte →
      Matched (bytes ++ [closeByte]) o bytes.length → bytes.length < 65535 →
      w.answer table (calls ++ askCalls bytes.length) bytes.length o = .ok () →
      w.answer table (calls ++ askCalls bytes.length ++ [wordCall bytes.length o]) o
        (bytes.length + 1) = .ok () →
      VisitCalls (bytes ++ [closeByte])
        (calls ++ askCalls bytes.length ++ [wordCall bytes.length o] ++
          [wordCall o (bytes.length + 1)])

/-- The calls up to the end at `c` of a loop opened at `o`, when the byte there has been asked for
and the loop cannot be dealt with. -/
inductive UnsettledCalls (o c : Nat) (asked : List Event) :
    ResolutionError → List Event → Prop
  /-- The start is too far for a word: no word is sent. -/
  | farStart : 65535 < o →
      UnsettledCalls o c asked (.unencodable (.ofNat c) (.ofNat o)) asked
  /-- The word of the end is refused: it is the last call. -/
  | endRefused {fault : Fault} : o ≤ 65535 → w.answer table asked c o = .error fault →
      UnsettledCalls o c asked (.memory fault) (asked ++ [wordCall c o])
  /-- The address behind the end is too far for a word: the word of the start is not sent. -/
  | farEnd : o ≤ 65535 → w.answer table asked c o = .ok () → 65535 ≤ c →
      UnsettledCalls o c asked (.unencodable (.ofNat o) (.ofNat (c + 1))) (asked ++ [wordCall c o])
  /-- The word of the start is refused: it is the last call. -/
  | startRefused {fault : Fault} : c < 65535 → w.answer table asked c o = .ok () →
      w.answer table (asked ++ [wordCall c o]) o (c + 1) = .error fault →
      UnsettledCalls o c asked (.memory fault) (asked ++ [wordCall c o] ++ [wordCall o (c + 1)])

/-- The calls up to a visit that fails, when its byte has been asked for. -/
inductive StopCalls (bytes : List UInt8) (asked : List Event) :
    ResolutionError → List Event → Prop
  /-- The byte is not answered: to ask for it is the last call. -/
  | unreadable {fault : Fault} : region.read (.ofNat bytes.length) = .error fault →
      StopCalls bytes asked (.memory fault) asked
  /-- No loop is open where one is closed: no word is sent. -/
  | stray : region.read (.ofNat bytes.length) = .ok closeByte →
      (∀ o, ¬ Unclosed bytes bytes.length o) →
      StopCalls bytes asked (.unmatched (some (.ofNat bytes.length))) asked
  /-- A loop is closed and cannot be dealt with. -/
  | unsettled {o : Nat} {cause : ResolutionError} {calls : List Event} :
      region.read (.ofNat bytes.length) = .ok closeByte →
      Matched (bytes ++ [closeByte]) o bytes.length →
      UnsettledCalls w table o bytes.length asked cause calls →
      StopCalls bytes asked cause calls

/-- The calls of a whole scan with its result, and the pieces of work that it has told. -/
inductive Protocol : Nat → List Event → Except ResolutionError Statistics → Prop
  /-- A poll asks to stop: it is the last call. -/
  | cancelled {bytes : List UInt8} {calls : List Event} :
      VisitCalls region w m table monitor bytes calls → bytes.length < region.size.toNat →
      m.isCancelled (m.after region.size monitor bytes.length) = true →
      Protocol bytes.length (calls ++ [.polled true]) (.error .cancelled)
  /-- A visit fails that was not asked to stop. -/
  | failed {bytes : List UInt8} {calls last : List Event} {cause : ResolutionError} :
      VisitCalls region w m table monitor bytes calls → bytes.length < region.size.toNat →
      m.isCancelled (m.after region.size monitor bytes.length) = false →
      StopCalls region w table bytes (calls ++ askCalls bytes.length) cause last →
      Protocol (bytes.length + 1) last (.error cause)
  /-- All visits go well, and a loop is left open; the first such is reported. -/
  | leftOpen {bytes : List UInt8} {calls : List Event} {o : Nat} :
      VisitCalls region w m table monitor bytes calls → bytes.length = region.size.toNat →
      Unclosed bytes bytes.length o → (∀ o', Unclosed bytes bytes.length o' → o ≤ o') →
      Protocol bytes.length calls (.error (.unmatched (some (.ofNat o))))
  /-- All visits go well, and every loop is closed. -/
  | finished {bytes : List UInt8} {calls : List Event} {statistics : Statistics} :
      VisitCalls region w m table monitor bytes calls → bytes.length = region.size.toNat →
      Balanced bytes → Protocol bytes.length calls (.ok statistics)

variable {region w m table monitor}

/-- A scan that succeeds has told as many pieces of work as the image claims to have bytes. -/
theorem Protocol.reached_eq_of_ok {reached : Nat} {calls : List Event} {statistics : Statistics}
    (h : Protocol region w m table monitor reached calls (.ok statistics)) :
    reached = region.size.toNat := by
  cases h with
  | finished _ hlength => exact hlength

end Grammar

/-! ## Scans keep to it -/

section Run

variable {σ μ : Type} {region : Readable} {w : Writable σ} {m : Monitor μ} {table : σ} {monitor : μ}
  {bytes : List UInt8} {opened : List Nat} {closed : List (Nat × Nat)} {s s' : Scan σ μ}

/-- The end of a loop that is dealt with has sent its own word, then the word of the start. -/
theorem Settled.calls_of_ok {o c : Nat} (h : Settled w (.ofNat o) (.ofNat c) s (.ok () s'))
    (hs : s.Answered region w table) (hc : c + 1 < UInt64.size) :
    c < 65535 ∧ w.answer table s.calls c o = .ok () ∧
      w.answer table (s.calls ++ [wordCall c o]) o (c + 1) = .ok () ∧
      s'.calls = s.calls ++ [wordCall c o] ++ [wordCall o (c + 1)] := by
  cases h with
  | done _ hend hnear hstart =>
    have hsent := hs.wordSent hend
    rw [ofNat_succ_gt_maxDestination_iff hc] at hnear
    rw [s.wordAnswer_eq w hs.table_eq] at hend
    rw [ofNat_succ, Scan.wordAnswer_eq _ w hsent.table_eq, Scan.calls_wordSent] at hstart
    refine ⟨Nat.lt_of_not_le hnear, hend, hstart, ?_⟩
    rw [ofNat_succ, Scan.calls_resolved, Scan.calls_wordSent, Scan.calls_wordSent]

/-- The end of a loop that cannot be dealt with has sent the words that the grammar allows. -/
theorem Settled.unsettledCalls {o c : Nat} {cause : ResolutionError}
    (h : Settled w (.ofNat o) (.ofNat c) s (.error cause s')) (hs : s.Answered region w table)
    (hoc : o < c) (hc : c + 1 < UInt64.size) :
    UnsettledCalls w table o c s.calls cause s'.calls := by
  have hfarStart : UInt64.ofNat o > Word.maxDestination ↔ 65535 < o :=
    ofNat_gt_maxDestination_iff (by omega)
  have hfarEnd : UInt64.ofNat c + 1 > Word.maxDestination ↔ 65535 ≤ c :=
    ofNat_succ_gt_maxDestination_iff hc
  have hanswer := s.wordAnswer_eq w hs.table_eq c o
  cases h with
  | farStart hfar => exact .farStart (hfarStart.1 hfar)
  | faultAtEnd hnear hend =>
    rw [hfarStart] at hnear
    rw [Scan.calls_wordSent]
    exact .endRefused (Nat.le_of_not_lt hnear) (hanswer.symm.trans hend)
  | farEnd hnear hend hfar =>
    rw [hfarStart] at hnear
    rw [ofNat_succ, Scan.calls_wordSent]
    exact .farEnd (Nat.le_of_not_lt hnear) (hanswer.symm.trans hend) (hfarEnd.1 hfar)
  | faultAtStart _ hend hnear hstart =>
    have hsent := hs.wordSent hend
    rw [hfarEnd] at hnear
    rw [ofNat_succ, Scan.wordAnswer_eq _ w hsent.table_eq, Scan.calls_wordSent] at hstart
    rw [ofNat_succ, Scan.calls_wordSent, Scan.calls_wordSent]
    exact .startRefused (Nat.lt_of_not_le hnear) (hanswer.symm.trans hend) hstart

/-- As long as a run goes well, its calls are those of visits that go well. -/
theorem Went.visitCalls (h : Went region w m table monitor bytes opened closed s) :
    VisitCalls region w m table monitor bytes s.calls := by
  induction h with
  | start => exact .start
  | inert hwent _ hpoll hread hb ih =>
    rw [hwent.monitor_eq] at hpoll
    rw [Scan.calls_asked]
    exact ih.plain hpoll hread hb.2
  | opened hwent _ hpoll hread ih =>
    rw [hwent.monitor_eq] at hpoll
    rw [Scan.calls_opened, Scan.calls_asked]
    exact ih.plain hpoll hread openByte_ne_closeByte
  | @closed bytes o opened closed s s' hwent hlt hpoll hread hsettled ih =>
    have hsize := region.size.toNat_lt_size
    have hanswered := (hwent.answered.asked m hread).taken
    obtain ⟨hnear, hend, hstart, hcalls⟩ := hsettled.calls_of_ok hanswered (by omega)
    rw [hwent.monitor_eq] at hpoll
    rw [Scan.calls_taken, Scan.calls_asked] at hend hstart hcalls
    rw [hcalls]
    exact ih.close hpoll hread hwent.course.layers.matched_close hnear hend hstart

/-- A visit that fails and is not cancelled was not asked to stop. It has made the calls that the
grammar allows, and has told one piece of work. -/
theorem Visited.stopCalls (hwent : Went region w m table monitor bytes opened closed s)
    (hlt : bytes.length < region.size.toNat) {cause : ResolutionError}
    (h : Visited region w m (.ofNat bytes.length) s (.error cause s'))
    (hcause : cause ≠ .cancelled) :
    m.isCancelled (m.after region.size monitor bytes.length) = false ∧
      StopCalls region w table bytes (s.calls ++ askCalls bytes.length) cause s'.calls ∧
      s'.monitor = m.after region.size monitor (bytes.length + 1) := by
  have hmonitor : (s.asked m (.ofNat bytes.length)).monitor =
      m.after region.size monitor (bytes.length + 1) := by
    rw [Scan.monitor_asked, hwent.monitor_eq, Monitor.after]
  rw [← hwent.monitor_eq]
  cases h with
  | cancelled => exact absurd rfl hcause
  | unreadable hpoll hread =>
    rw [Scan.calls_asked]
    exact ⟨hpoll, .unreadable hread, hmonitor⟩
  | stray hpoll hread hpeek =>
    rw [hwent.peek?_eq, Option.map_eq_none_iff, List.head?_eq_none_iff] at hpeek
    subst hpeek
    rw [Scan.calls_logged, Scan.calls_taken, Scan.calls_asked]
    refine ⟨hpoll, .stray hread fun o ho => ?_, hmonitor⟩
    exact List.not_mem_nil (hwent.course.mem_opened_iff.2 ho)
  | closed hpoll hread hpeek hsettled =>
    obtain ⟨o, rest, rfl, rfl⟩ := hwent.eq_cons_of_peek? hpeek
    have hsize := region.size.toNat_lt_size
    have hcalls := hsettled.unsettledCalls (hwent.answered.asked m hread).taken
      (hwent.course.opened_lt o (List.mem_cons_self ..)) (by omega)
    rw [Scan.calls_taken, Scan.calls_asked] at hcalls
    refine ⟨hpoll, .unsettled hread hwent.course.layers.matched_close hcalls, ?_⟩
    cases hsettled with
    | farStart | faultAtEnd | farEnd | faultAtStart => exact hmonitor

/-- The outermost of the loops that are left open was opened first. -/
theorem Course.outermost_le {o : Nat} (h : Course bytes (opened ++ [o]) closed) {o' : Nat}
    (ho' : Unclosed bytes bytes.length o') : o ≤ o' := by
  have hsorted := (List.pairwise_append.1 h.pairwise_opened).2.2
  rcases List.mem_append.1 (h.mem_opened_iff.2 ho') with hinner | hlast
  · exact Nat.le_of_lt (hsorted o' hinner o (List.mem_singleton_self o))
  · exact Nat.le_of_eq (List.mem_singleton.1 hlast).symm

/-- A scan whose table is not too small keeps to the protocol, and its monitor is told the pieces of
work of the protocol one by one. -/
theorem protocol_resolve (m : Monitor μ) (monitor : μ)
    (hsize : ¬ w.size table / Word.size < region.size) :
    ∃ reached ≤ region.size.toNat,
      Protocol region w m table monitor reached (resolve region w m table monitor).calls
        (resolve region w m table monitor).result ∧
      (resolve region w m table monitor).monitor = m.after region.size monitor reached := by
  have hended := ended_resolve region w m table monitor
  generalize resolve region w m table monitor = outcome at hended ⊢
  cases hended with
  | tooSmall hsmall => exact absurd hsmall hsize
  | @leftOpen bytes opened o closed s _ hwent hlength =>
    refine ⟨bytes.length, hwent.length_le, ?_, hwent.monitor_eq⟩
    have hlast : o ∈ opened ++ [o] := List.mem_append_right opened (List.mem_singleton_self o)
    have hopen := hwent.course.mem_opened_iff.1 hlast
    rw [Outcome.calls_ofResult_error, Scan.calls_logged]
    exact .leftOpen hwent.visitCalls hlength hopen fun _ => hwent.course.outermost_le
  | @finished bytes closed s _ hwent hlength =>
    refine ⟨bytes.length, hwent.length_le, ?_, hwent.monitor_eq⟩
    rw [Outcome.calls_ofResult_ok, Scan.calls_logged]
    exact .finished hwent.visitCalls hlength hwent.course.balanced
  | @stopped bytes opened closed s s' cause _ hwent hlt hvisited =>
    by_cases hcause : cause = .cancelled
    · subst hcause
      refine ⟨bytes.length, hwent.length_le, ?_⟩
      cases hvisited with
      | cancelled hpoll =>
        rw [hwent.monitor_eq] at hpoll
        rw [Outcome.calls_ofResult_error, Scan.calls_polled]
        exact ⟨.cancelled hwent.visitCalls hlt hpoll, hwent.monitor_eq⟩
      | closed _ _ _ hsettled => cases hsettled
    · obtain ⟨hpoll, hcalls, hmonitor⟩ := hvisited.stopCalls hwent hlt hcause
      exact ⟨bytes.length + 1, hlt, .failed hwent.visitCalls hlt hpoll hcalls, hmonitor⟩

/-! ## Slots are written once -/

/-- The addresses to whose slots the words of some closed loops are sent, in order. -/
def slotsOf (closed : List (Nat × Nat)) : List Nat :=
  closed.flatMap fun (o, c) => [c, o]

theorem mem_slotsOf_iff {a : Nat} : a ∈ slotsOf closed ↔ ∃ v, CalledFor closed a v := by
  rw [slotsOf, List.mem_flatMap]
  constructor
  · rintro ⟨⟨o, c⟩, hclosed, ha⟩
    rcases List.mem_cons.1 ha with rfl | ha
    · exact ⟨o, o, a, hclosed, Or.inl ⟨rfl, rfl⟩⟩
    · obtain rfl := List.mem_singleton.1 ha
      exact ⟨c + 1, a, c, hclosed, Or.inr ⟨rfl, rfl⟩⟩
  · rintro ⟨v, o, c, hclosed, ⟨rfl, -⟩ | ⟨rfl, -⟩⟩
    · exact ⟨(o, a), hclosed, List.mem_cons_self ..⟩
    · exact ⟨(a, c), hclosed, List.mem_cons_of_mem _ (List.mem_singleton_self a)⟩

/-- The ends of the loops closed are all different. -/
theorem Course.nodup_slots (h : Course bytes opened closed) : (slotsOf closed).Nodup := by
  induction h with
  | nil => exact List.nodup_nil
  | inert _ _ ih | opened _ ih => exact ih
  | @closed bytes o opened closed hcourse ih =>
    have hopen := List.mem_cons_self (a := o) (l := opened)
    have hend : bytes.length ∉ slotsOf closed := by
      intro hmem
      obtain ⟨v, hv⟩ := mem_slotsOf_iff.1 hmem
      exact Nat.lt_irrefl _ (hcourse.calledFor_lt hv)
    have hstart : o ∉ slotsOf closed := by
      intro hmem
      obtain ⟨v, hv⟩ := mem_slotsOf_iff.1 hmem
      exact hcourse.not_calledFor_of_opened hopen v hv
    have hne : bytes.length ≠ o := Nat.ne_of_gt (hcourse.opened_lt o hopen)
    have hslots : slotsOf (closed ++ [(o, bytes.length)]) =
        slotsOf closed ++ [bytes.length, o] := by
      rw [slotsOf, List.flatMap_append, List.flatMap_singleton]
      rfl
    rw [hslots, List.nodup_append]
    refine ⟨ih, by simp [hne], fun a ha b hb heq => ?_⟩
    subst heq
    rcases List.mem_cons.1 hb with rfl | hb
    · exact hend ha
    · exact hstart (List.mem_singleton.1 hb ▸ ha)

/-- Both words of a loop are sent to twice the addresses of its ends. -/
theorem map_offset_pairPuts
    (h : ∀ o c, (o, c) ∈ closed → 2 * o < UInt64.size ∧ 2 * c < UInt64.size) :
    (closed.flatMap pairPuts).map (fun put => put.1.toNat) = (slotsOf closed).map (2 * ·) := by
  rw [slotsOf, List.map_flatMap, List.map_flatMap]
  refine List.flatMap_congr fun (o, c) hclosed => ?_
  obtain ⟨ho, hc⟩ := h o c hclosed
  simp [pairPuts, Scan.wordPut, Word.toNat_offset ho, Word.toNat_offset hc]

/-- The end of a loop that cannot be dealt with has asked for the first of its words, if any. -/
theorem Settled.puts_isPrefix {o c : Nat} {cause : ResolutionError}
    (h : Settled w (.ofNat o) (.ofNat c) s (.error cause s')) :
    s'.puts <+: s.puts ++ pairPuts (o, c) := by
  cases h with
  | farStart => exact List.prefix_append _ _
  | faultAtEnd | farEnd =>
    rw [Scan.puts_wordSent]
    exact (List.prefix_append_right_inj _).2 ⟨[_], rfl⟩
  | faultAtStart =>
    rw [Scan.puts_wordSent, Scan.puts_wordSent, List.append_assoc]
    exact List.prefix_refl _

/-- The writes of a scan are the first writes for the loops that some bytes close. -/
theorem exists_course_of_puts (region : Readable) (w : Writable σ) (m : Monitor μ) (table : σ)
    (monitor : μ) :
    ∃ bytes opened closed, Course bytes opened closed ∧ bytes.length ≤ region.size.toNat ∧
      (resolve region w m table monitor).puts <+: closed.flatMap pairPuts := by
  have hwell : ∀ {bytes : List UInt8} {opened : List Nat} {closed : List (Nat × Nat)}
      {s : Scan σ μ}, Went region w m table monitor bytes opened closed s →
      ∃ bytes opened closed, Course bytes opened closed ∧ bytes.length ≤ region.size.toNat ∧
        s.puts <+: closed.flatMap pairPuts := by
    intro bytes opened closed s hwent
    exact ⟨_, _, _, hwent.course, hwent.length_le, hwent.puts_eq ▸ List.prefix_refl _⟩
  have hended := ended_resolve region w m table monitor
  generalize resolve region w m table monitor = outcome at hended ⊢
  cases hended with
  | tooSmall => exact ⟨[], [], [], .nil, Nat.zero_le _, List.nil_prefix⟩
  | leftOpen _ hwent _ | finished _ hwent _ => simpa using hwell hwent
  | @stopped bytes opened closed s s' cause _ hwent hlt hvisited =>
    cases hvisited with
    | cancelled | unreadable | stray => simpa using hwell hwent
    | closed _ _ hpeek hsettled =>
      obtain ⟨o, rest, rfl, rfl⟩ := hwent.eq_cons_of_peek? hpeek
      have hputs := hsettled.puts_isPrefix
      rw [Scan.puts_taken, Scan.puts_asked, hwent.puts_eq] at hputs
      refine ⟨_, _, _, hwent.course.closed, ?_, ?_⟩
      · rw [List.length_append, List.length_singleton]
        exact hlt
      · rw [List.flatMap_append, List.flatMap_singleton]
        exact hputs

/-- Whatever happens, no slot of the table is written twice. -/
theorem exists_slots (region : Readable) (w : Writable σ) (m : Monitor μ) (table : σ)
    (monitor : μ) :
    ∃ slots : List Nat, slots.Nodup ∧
      (resolve region w m table monitor).puts.map (fun put => put.1.toNat) = slots.map (2 * ·) := by
  obtain ⟨bytes, opened, closed, hcourse, hlength, hputs⟩ :=
    exists_course_of_puts region w m table monitor
  cases hempty : (resolve region w m table monitor).puts with
  | nil => exact ⟨[], List.nodup_nil, rfl⟩
  | cons put puts =>
    have hfits := resolve_fits (hempty ▸ List.mem_cons_self (a := put) (l := puts))
    have hsize := (w.size table).toNat_lt_size
    have hbounds : ∀ o c, (o, c) ∈ closed → 2 * o < UInt64.size ∧ 2 * c < UInt64.size := by
      intro o c hclosed
      have hm := hcourse.mem_closed_iff.1 hclosed
      have hlt := hm.lt
      have hc := hm.closing_lt_length
      omega
    rw [← hempty]
    have hprefix := hputs.map fun put => put.1.toNat
    rw [map_offset_pairPuts hbounds, List.prefix_iff_eq_take, ← List.map_take] at hprefix
    exact ⟨_, hcourse.nodup_slots.sublist (List.take_sublist _ _), hprefix⟩

/-! ## The protocol as a whole -/

/-- **Protocol.** Let the regions claim any sizes and answer whatever they like, under any monitor.

* A scan whose table has too few words for its image makes no call, and all stays as it was.
* Any other scan makes the calls of the protocol, which go with its result. Its monitor has been
  started once and then told as many single pieces of work as the protocol says: a monitor that
  counts has counted these.
* No slot of the table is written twice. -/
theorem resolve_protocol (region : Readable) (w : Writable σ) (m : Monitor μ) (table : σ)
    (monitor : μ) :
    let outcome := resolve region w m table monitor
    (w.size table / Word.size < region.size → outcome.calls = [] ∧
      outcome = ⟨.error (.tableTooSmall region.size (w.size table)), table, monitor, []⟩) ∧
    (¬ w.size table / Word.size < region.size → ∃ reached ≤ region.size.toNat,
      Protocol region w m table monitor reached outcome.calls outcome.result ∧
      outcome.monitor = m.after region.size monitor reached ∧
      ∀ progress, m.Counts progress → progress outcome.monitor =
        ⟨region.size, .ofNat reached, (progress monitor).token⟩) ∧
    ∃ slots : List Nat, slots.Nodup ∧
      outcome.puts.map (fun put => put.1.toNat) = slots.map (2 * ·) := by
  intro outcome
  refine ⟨fun hsize => ?_, fun hsize => ?_, exists_slots region w m table monitor⟩
  · have houtcome : outcome =
        ⟨.error (.tableTooSmall region.size (w.size table)), table, monitor, []⟩ := if_pos hsize
    exact ⟨by rw [houtcome]; rfl, houtcome⟩
  · obtain ⟨reached, hle, hprotocol, hmonitor⟩ := protocol_resolve m monitor hsize
    refine ⟨reached, hle, hprotocol, hmonitor, fun progress hcounts => ?_⟩
    rw [hmonitor]
    exact hcounts.after_eq region.size monitor (Nat.lt_of_le_of_lt hle region.size.toNat_lt_size)

/-- One loop of two bytes under a progress, which has counted both of them in the end, and the same
in a table that is too small by one byte. -/
theorem resolve_protocol_one_loop :
    let image : Readable := .ofBytes #[6, 7]
    let monitor : Progress × TokenPool := (.new 0, ⟨#[false]⟩)
    let outcome := resolve image .bytes .task (Bytes.zeros 4) monitor
    Protocol image .bytes .task (Bytes.zeros 4) monitor 2 outcome.calls outcome.result ∧
    outcome.monitor.1 = ⟨2, 2, 0⟩ ∧
    (resolve image .bytes .task (Bytes.zeros 3) monitor).calls = [] := by
  intro image monitor outcome
  obtain ⟨-, hprotocol, -⟩ := resolve_protocol image .bytes .task (Bytes.zeros 4) monitor
  obtain ⟨reached, -, hcalls, -, hprogress⟩ := hprotocol (by decide)
  have hresult : outcome.result = .ok ⟨2, 1, 1⟩ := rfl
  have hok : Protocol image .bytes .task (Bytes.zeros 4) monitor reached outcome.calls
      (.ok ⟨2, 1, 1⟩) := hresult ▸ hcalls
  obtain rfl : reached = 2 := hok.reached_eq_of_ok
  exact ⟨hcalls, hprogress _ Monitor.counts_task,
    ((resolve_protocol image .bytes .task (Bytes.zeros 3) monitor).1 (by decide)).1⟩

example : (resolve (.ofBytes #[6, 7]) .bytes .silent (Bytes.zeros 4) ()).calls =
    [.started 2] ++ askCalls 0 ++ askCalls 1 ++ [wordCall 1 0, wordCall 0 2] := rfl

end Run

end LoopTable
