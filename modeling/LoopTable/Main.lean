import LoopTable.Command.Run

/-!
# The command

The outermost layer: files, the environment, the two outputs and the clock.
-/

namespace LoopTable.Command

/-- The fault of a failed access to the file system. The system numbers a path through a file 20
and a directory in a file's place 21, and some of its calls negate the number. -/
def faultOf : IO.Error → Fault
  | .noFileOrDirectory .. => .noSuchFile
  | .inappropriateType _ code _ =>
    if code = 20 ∨ code = 0 - 20 then .notDirectory else .isDirectory
  | e => .device (.named "Other") (toString e)

/-- Access to the files of the system. -/
def systemStorage : Storage IO where
  read := fun path => do
    try
      return .ok (← IO.FS.readBinFile path).data
    catch e =>
      return .error (faultOf e)
  write := fun path content => do
    try
      IO.FS.writeBinFile path ⟨content⟩
      return .ok ()
    catch e =>
      return .error (faultOf e)

/-- A time of so many milliseconds, in hours, minutes, seconds and milliseconds. -/
def clockText (milliseconds : Nat) : String :=
  let two (n : Nat) : String := Numeral.padLeft '0' 2 (toString n)
  let seconds := milliseconds / 1000
  two (seconds / 3600 % 24) ++ ":" ++ two (seconds / 60 % 60) ++ ":" ++ two (seconds % 60) ++ "." ++
    Numeral.padLeft '0' 3 (toString (milliseconds % 1000))

end LoopTable.Command

/-- Carries out a call of the command. -/
def main (arguments : List String) : IO UInt32 := do
  let filterText ← IO.getEnv "RUST_LOG"
  let transcript ← LoopTable.Command.run LoopTable.Command.systemStorage arguments filterText
  for line in transcript.output do
    IO.println line
  for line in transcript.told do
    IO.eprint (line.written (LoopTable.Command.clockText (← IO.monoMsNow)))
  return UInt32.ofNat transcript.status
