import LoopTable.Resolution.Scan

/-!
# One step of a scan

What a scan can do at one address, over any regions and under any monitor. `Visited` lists the ways
in which a visit can end, each with its cause and the state it leaves behind, and `visited_visit`
says that there are no others. All that is proved about scans starts from this list.

* The states on the way have names: `Scan.asked` once the byte of an address is asked for,
  `Scan.taken` once an open loop is taken, `Scan.wordSent` once a word is sent to the table.
* `Settled` lists the ways in which the end of a loop can be dealt with.
-/

namespace LoopTable

namespace Scan

variable {σ μ α : Type}

/-! ## States on the way -/

/-- One thing more has been done. -/
def noted (event : Event) (s : Scan σ μ) : Scan σ μ :=
  { s with events := s.events.push event }

/-- The monitor has been polled and told, and the byte of an address asked for. -/
def asked (m : Monitor μ) (address : UInt64) (s : Scan σ μ) : Scan σ μ :=
  { s with
    monitor := m.advance 1 s.monitor
    events := ((s.events.push (.polled false)).push (.advanced 1)).push (.read address) }

/-- A loop has been opened. -/
def opened (address : UInt64) (s : Scan σ μ) : Scan σ μ :=
  { s with pending := s.pending.push address }

/-- The innermost open loop has been taken. -/
def taken (s : Scan σ μ) : Scan σ μ :=
  { s with pending := s.pending.pop.2 }

/-- The answer of the table to the word of an address. -/
def wordAnswer (w : Writable σ) (address destination : UInt64) (s : Scan σ μ) :
    Except Fault Unit :=
  (w.put (address * Word.size) (Word.encode destination.toUInt16) s.table).1

/-- The word of an address has been sent to the table. -/
def wordSent (w : Writable σ) (address destination : UInt64) (s : Scan σ μ) : Scan σ μ :=
  { s with
    table := (w.put (address * Word.size) (Word.encode destination.toUInt16) s.table).2
    events := s.events.push (.put (address * Word.size) (Word.encode destination.toUInt16)) }

/-- The bytes of a word, with the offset they are sent to. -/
def wordPut (address destination : UInt64) : UInt64 × List UInt8 :=
  (address * Word.size, Word.encode destination.toUInt16)

/-- A loop has been counted and logged. -/
def resolved (opening closing : UInt64) (s : Scan σ μ) : Scan σ μ :=
  { s with
    pairs := s.pairs + 1
    events := s.events.push (.logged (.pairResolved opening closing)) }

/-- The writes asked for so far. -/
def puts (s : Scan σ μ) : List (UInt64 × List UInt8) :=
  s.events.toList.filterMap Event.put?

section Fields

variable (s : Scan σ μ) (m : Monitor μ) (w : Writable σ) (a d : UInt64)

@[simp] theorem pending_asked : (s.asked m a).pending = s.pending := rfl
@[simp] theorem pending_opened : (s.opened a).pending = s.pending.push a := rfl
@[simp] theorem pending_taken : s.taken.pending = s.pending.pop.2 := rfl
@[simp] theorem pending_wordSent : (s.wordSent w a d).pending = s.pending := rfl
@[simp] theorem pending_resolved : (s.resolved a d).pending = s.pending := rfl

@[simp] theorem monitor_asked : (s.asked m a).monitor = m.advance 1 s.monitor := rfl
@[simp] theorem monitor_opened : (s.opened a).monitor = s.monitor := rfl
@[simp] theorem monitor_taken : s.taken.monitor = s.monitor := rfl
@[simp] theorem monitor_wordSent : (s.wordSent w a d).monitor = s.monitor := rfl
@[simp] theorem monitor_resolved : (s.resolved a d).monitor = s.monitor := rfl

theorem events_asked : (s.asked m a).events.toList =
    s.events.toList ++ [.polled false] ++ [.advanced 1] ++ [.read a] := by
  rw [asked, Array.toList_push, Array.toList_push, Array.toList_push]

@[simp] theorem puts_polled (answer : Bool) : (s.noted (.polled answer)).puts = s.puts := by
  simp [puts, noted, Event.put?]

@[simp] theorem puts_logged (record : Record) : (s.noted (.logged record)).puts = s.puts := by
  simp [puts, noted, Event.put?]

@[simp] theorem puts_asked : (s.asked m a).puts = s.puts := by
  simp [puts, asked, Event.put?]

@[simp] theorem puts_opened : (s.opened a).puts = s.puts := rfl
@[simp] theorem puts_taken : s.taken.puts = s.puts := rfl

@[simp] theorem puts_wordSent : (s.wordSent w a d).puts = s.puts ++ [wordPut a d] := by
  simp [puts, wordSent, wordPut, Event.put?]

@[simp] theorem puts_resolved : (s.resolved a d).puts = s.puts := by
  simp [puts, resolved, Event.put?]

end Fields

/-! ## Single actions -/

theorem run_poll (m : Monitor μ) (s : Scan σ μ) :
    (poll m).run s = if m.isCancelled s.monitor = true
      then .error .cancelled (s.noted (.polled true))
      else .ok () (s.noted (.polled false)) := by
  by_cases h : m.isCancelled s.monitor = true <;> simp [poll, note, noted, h]

theorem run_read (image : Readable) (address : UInt64) (s : Scan σ μ) :
    (read image address).run s = match image.read address with
      | .ok byte => .ok byte (s.noted (.read address))
      | .error fault => .error (.memory fault) (s.noted (.read address)) := by
  cases h : image.read address with
  | ok byte =>
    simp only [read, note, h, EStateM.run_bind, EStateM.run_modify]
    rfl
  | error fault =>
    simp only [read, note, h, EStateM.run_bind, EStateM.run_modify]
    rfl

theorem run_put (w : Writable σ) (offset : UInt64) (bytes : List UInt8) (s : Scan σ μ) :
    (put w offset bytes).run s =
      let s' := { s with
        table := (w.put offset bytes s.table).2, events := s.events.push (.put offset bytes) }
      match (w.put offset bytes s.table).1 with
      | .ok () => .ok () s'
      | .error fault => .error (.memory fault) s' := by
  cases h : (w.put offset bytes s.table).1 <;> simp [put, note, h]

theorem run_putDestination (w : Writable σ) (address destination : UInt64) (s : Scan σ μ) :
    (putDestination w address destination).run s =
      if destination > Word.maxDestination then .error (.unencodable address destination) s
      else match s.wordAnswer w address destination with
        | .ok () => .ok () (s.wordSent w address destination)
        | .error fault => .error (.memory fault) (s.wordSent w address destination) := by
  by_cases h : destination > Word.maxDestination
  · simp [putDestination, h]
  · simp only [putDestination, h, if_false, run_put, wordSent, wordAnswer]

end Scan

/-! ## The end of a loop -/

/-- How the end at `closing` of a loop opened at `opening` can be dealt with: its own word comes
first, then the word of the start. -/
inductive Settled {σ μ : Type} (w : Writable σ) (opening closing : UInt64) (s : Scan σ μ) :
    EStateM.Result ResolutionError (Scan σ μ) Unit → Prop
  /-- The start is too far for a word. -/
  | farStart : opening > Word.maxDestination →
      Settled w opening closing s (.error (.unencodable closing opening) s)
  /-- The word of the end is not accepted. -/
  | faultAtEnd {fault : Fault} : ¬ opening > Word.maxDestination →
      s.wordAnswer w closing opening = .error fault →
      Settled w opening closing s (.error (.memory fault) (s.wordSent w closing opening))
  /-- What follows the end is too far for a word. -/
  | farEnd : ¬ opening > Word.maxDestination → s.wordAnswer w closing opening = .ok () →
      closing + 1 > Word.maxDestination →
      Settled w opening closing s
        (.error (.unencodable opening (closing + 1)) (s.wordSent w closing opening))
  /-- The word of the start is not accepted. -/
  | faultAtStart {fault : Fault} : ¬ opening > Word.maxDestination →
      s.wordAnswer w closing opening = .ok () → ¬ closing + 1 > Word.maxDestination →
      (s.wordSent w closing opening).wordAnswer w opening (closing + 1) = .error fault →
      Settled w opening closing s (.error (.memory fault)
        ((s.wordSent w closing opening).wordSent w opening (closing + 1)))
  /-- Both words are accepted. -/
  | done : ¬ opening > Word.maxDestination →
      s.wordAnswer w closing opening = .ok () → ¬ closing + 1 > Word.maxDestination →
      (s.wordSent w closing opening).wordAnswer w opening (closing + 1) = .ok () →
      Settled w opening closing s (.ok ()
        (((s.wordSent w closing opening).wordSent w opening (closing + 1)).resolved
          opening closing))

namespace Scan

variable {σ μ : Type}

theorem run_closeLoop_of_none (w : Writable σ) (address : UInt64) {s : Scan σ μ}
    (h : s.pending.peek? = none) :
    (closeLoop w address).run s =
      .error (.unmatched (some address)) (s.taken.noted (.logged (.strayClose address))) := by
  have hpop : s.pending.pop.1 = none := h
  simp [closeLoop, takePending, hpop, note, noted, taken]

theorem settled_closeLoop (w : Writable σ) (closing : UInt64) {opening : UInt64} {s : Scan σ μ}
    (h : s.pending.peek? = some opening) :
    Settled w opening closing s.taken ((closeLoop w closing).run s) := by
  have hpop : s.pending.pop.1 = some opening := h
  have hrun : (closeLoop w closing).run s =
      (do putDestination w closing opening
          putDestination w opening (closing + 1)
          countPair
          note (.logged (.pairResolved opening closing)) : ScanM σ μ Unit).run s.taken := by
    simp [closeLoop, takePending, hpop, taken]
  rw [hrun]
  simp only [EStateM.run_bind, run_putDestination]
  by_cases hstart : opening > Word.maxDestination
  · simp only [hstart, if_true]
    exact .farStart hstart
  · simp only [hstart, if_false]
    cases hend : s.taken.wordAnswer w closing opening with
    | error fault => exact .faultAtEnd hstart hend
    | ok =>
      by_cases hfar : closing + 1 > Word.maxDestination
      · simp only [hfar, if_true]
        exact .farEnd hstart hend hfar
      · simp only [hfar, if_false]
        cases hword : (s.taken.wordSent w closing opening).wordAnswer w opening (closing + 1) with
        | error fault => exact .faultAtStart hstart hend hfar hword
        | ok => exact .done hstart hend hfar hword

end Scan

/-! ## The visit of an address -/

/-- How the visit of an address can end. -/
inductive Visited {σ μ : Type} (image : Readable) (w : Writable σ) (m : Monitor μ)
    (address : UInt64) (s : Scan σ μ) : EStateM.Result ResolutionError (Scan σ μ) Unit → Prop
  /-- The monitor asks to stop. -/
  | cancelled : m.isCancelled s.monitor = true →
      Visited image w m address s (.error .cancelled (s.noted (.polled true)))
  /-- The byte cannot be read. -/
  | unreadable {fault : Fault} : m.isCancelled s.monitor = false →
      image.read address = .error fault →
      Visited image w m address s (.error (.memory fault) (s.asked m address))
  /-- The byte is no part of a loop. -/
  | inert {byte : UInt8} : m.isCancelled s.monitor = false → image.read address = .ok byte →
      byte ≠ openByte → byte ≠ closeByte →
      Visited image w m address s (.ok () (s.asked m address))
  /-- The byte opens a loop. -/
  | opened : m.isCancelled s.monitor = false → image.read address = .ok openByte →
      Visited image w m address s (.ok () ((s.asked m address).opened address))
  /-- The byte closes a loop that was never opened. -/
  | stray : m.isCancelled s.monitor = false → image.read address = .ok closeByte →
      s.pending.peek? = none →
      Visited image w m address s (.error (.unmatched (some address))
        ((s.asked m address).taken.noted (.logged (.strayClose address))))
  /-- The byte closes the innermost open loop. -/
  | closed {opening : UInt64} {result : EStateM.Result ResolutionError (Scan σ μ) Unit} :
      m.isCancelled s.monitor = false → image.read address = .ok closeByte →
      s.pending.peek? = some opening →
      Settled w opening address (s.asked m address).taken result →
      Visited image w m address s result

namespace Scan

variable {σ μ : Type}

theorem run_visit (image : Readable) (w : Writable σ) (m : Monitor μ) (address : UInt64)
    (s : Scan σ μ) :
    (visit image w m address).run s =
      if m.isCancelled s.monitor = true then .error .cancelled (s.noted (.polled true))
      else match image.read address with
        | .error fault => .error (.memory fault) (s.asked m address)
        | .ok byte => (if byte = openByte then openLoop address
            else if byte = closeByte then closeLoop w address
            else pure () : ScanM σ μ Unit).run (s.asked m address) := by
  by_cases h : m.isCancelled s.monitor = true
  · simp [visit, run_poll, h]
  · cases hread : image.read address <;>
      simp [visit, run_poll, run_read, advance, note, h, hread, asked, noted]

/-- A visit ends in one of the ways listed. -/
theorem visited_visit (image : Readable) (w : Writable σ) (m : Monitor μ) (address : UInt64)
    (s : Scan σ μ) : Visited image w m address s ((visit image w m address).run s) := by
  rw [run_visit]
  cases hpoll : m.isCancelled s.monitor with
  | true => exact .cancelled hpoll
  | false =>
    cases hread : image.read address with
    | error fault => exact .unreadable hpoll hread
    | ok byte =>
      by_cases hopen : byte = openByte
      · subst hopen
        exact .opened hpoll hread
      · by_cases hclose : byte = closeByte
        · subst hclose
          simp only [Bool.false_eq_true, if_false, hopen, if_true]
          cases hpeek : s.pending.peek? with
          | none =>
            rw [run_closeLoop_of_none w address (s := s.asked m address) hpeek]
            exact .stray hpoll hread hpeek
          | some opening =>
            exact .closed hpoll hread hpeek
              (settled_closeLoop w address (s := s.asked m address) hpeek)
        · simp only [Bool.false_eq_true, if_false, hopen, hclose]
          exact .inert hpoll hread hopen hclose

end Scan

end LoopTable
