/-!
# The arguments of the command

The command has two subcommands: one assembles a source file, the other resolves an image into a
table. This file reads the arguments of a call into what is asked for.

* `Request.ofArguments` reads a whole call. The result is a `Request` to carry out, or a
  `UsageError` that says what is wrong with the call.
* An option takes its value from the same argument or from the next one; two dashes alone end the
  options, and a single dash is no option.
-/

namespace LoopTable.Command

/-- A subcommand. -/
inductive Subcommand
  | assemble
  | resolve
  | help
  deriving DecidableEq

/-- The name of a subcommand. -/
def Subcommand.name : Subcommand → String
  | assemble => "assemble"
  | resolve => "resolve"
  | help => "help"

/-- The subcommand of a name. -/
def Subcommand.ofName? (name : String) : Option Subcommand :=
  [assemble, resolve, help].find? (·.name == name)

/-- What to do with files. -/
inductive Job
  /-- Assemble the source text at one path into an image at another. -/
  | assemble (source image : String)
  /-- Resolve the image at a path into a table at another, with the settings at a third if there is
  one, for a processor if one is named. -/
  | resolve (image table : String) (settings processor : Option String)
  deriving DecidableEq

/-- What a call asks for. -/
inductive Request
  /-- Do a job, and tell more of it if `verbose`. -/
  | run (verbose : Bool) (job : Job)
  /-- Explain the command, or the subcommand that the names lead to. -/
  | help (of : List Subcommand)
  /-- Tell the version of the command. -/
  | version
  deriving DecidableEq

/-- What is wrong with a call. -/
inductive UsageError
  /-- No subcommand is named. -/
  | noSubcommand
  /-- There is no subcommand of this name. -/
  | unknownSubcommand (name : String)
  /-- An argument has no meaning where it stands. -/
  | unexpected (argument : String)
  /-- An option is given twice. -/
  | repeated (option : String)
  /-- An option is given without its value. -/
  | noValue (option : String)
  /-- An option or argument has an empty value. -/
  | emptyValue (name : String)
  /-- An argument is missing. -/
  | missing (name : String)
  deriving DecidableEq

namespace UsageError

/-- The wording of what is wrong. -/
def message : UsageError → String
  | noSubcommand => "a subcommand is required but none was provided"
  | unknownSubcommand name => s!"unrecognized subcommand '{name}'"
  | unexpected argument => s!"unexpected argument '{argument}' found"
  | repeated option => s!"the argument '{option}' cannot be used multiple times"
  | noValue option => s!"a value is required for '{option}' but none was supplied"
  | emptyValue name => s!"a value is required for '{name}' but none was supplied"
  | missing name => s!"the following required argument was not provided: {name}"

end UsageError

/-! ## The shape of an argument -/

/-- What one argument looks like. -/
inductive Shape
  /-- Two dashes alone. -/
  | endOfOptions
  /-- Two dashes and a name, with a value if there is an equals sign. -/
  | long (name : String) (value : Option String)
  /-- One dash and letters. -/
  | short (letters : List Char)
  /-- Anything else. -/
  | plain

/-- The shape of an argument. -/
def shape (argument : String) : Shape :=
  match argument.toList with
  | ['-', '-'] => .endOfOptions
  | '-' :: '-' :: rest =>
    let name := String.ofList (rest.takeWhile (· != '='))
    match rest.dropWhile (· != '=') with
    | _ :: value => .long name (some (String.ofList value))
    | [] => .long name none
  | '-' :: c :: rest => .short (c :: rest)
  | _ => .plain

/-! ## Subcommands -/

/-- The arguments of a subcommand as far as they are read. -/
structure Operands where
  /-- The arguments that are no options, in order. -/
  positional : List String
  /-- The file of settings. -/
  settings : Option String
  /-- The processor. -/
  processor : Option String

/-- What comes of reading a part of a call: a request if it asks to stop there, else what was
read. -/
abbrev Reading (α : Type) := Except (Except UsageError Request) α

/-- Stops at a mistake. -/
def refuse {α : Type} (e : UsageError) : Reading α :=
  .error (.error e)

/-- Stops at a request. -/
def ask {α : Type} (r : Request) : Reading α :=
  .error (.ok r)

namespace Operands

/-- Nothing is read. -/
def empty : Operands := ⟨[], none, none⟩

/-- Adds an argument that is no option. Both subcommands take two of them, which are paths and so
not empty. -/
def addPositional (o : Operands) (argument : String) : Reading Operands :=
  if 2 ≤ o.positional.length then refuse (.unexpected argument)
  else if argument.isEmpty then refuse (.emptyValue "path")
  else .ok { o with positional := o.positional ++ [argument] }

/-- Gives the option for the file of settings, which is a path and so not empty. -/
def addSettings (o : Operands) (value : String) : Reading Operands :=
  if value.isEmpty then refuse (.emptyValue "--config <FILE>")
  else if o.settings.isSome then refuse (.repeated "--config <FILE>")
  else .ok { o with settings := some value }

/-- Gives the option for the processor. -/
def addProcessor (o : Operands) (value : String) : Reading Operands :=
  if o.processor.isSome then refuse (.repeated "--processor <PROCESSOR>")
  else .ok { o with processor := some value }

/-- Whether an argument can be the value of the option in front of it. -/
def isValue (argument : String) : Bool :=
  match shape argument with
  | .plain => true
  | _ => false

/-- Reads the arguments of a subcommand that stand behind two dashes. -/
def readPlain (o : Operands) : List String → Reading Operands
  | [] => .ok o
  | argument :: rest => do (← o.addPositional argument).readPlain rest

/-- Reads the arguments of a subcommand. -/
def read (of : Subcommand) (o : Operands) : List String → Reading Operands
  | [] => .ok o
  | argument :: rest =>
    match shape argument with
    | .endOfOptions => o.readPlain rest
    | .plain => do (← o.addPositional argument).read of rest
    | .long name value =>
      match of, name, value with
      | _, "help", none => ask (.help [of])
      | .resolve, "config", some v => do (← o.addSettings v).read of rest
      | .resolve, "processor", some v => do (← o.addProcessor v).read of rest
      | .resolve, "config", none =>
        match rest with
        | v :: rest =>
          if isValue v then do (← o.addSettings v).read of rest
          else refuse (.noValue "--config <FILE>")
        | [] => refuse (.noValue "--config <FILE>")
      | .resolve, "processor", none =>
        match rest with
        | v :: rest =>
          if isValue v then do (← o.addProcessor v).read of rest
          else refuse (.noValue "--processor <PROCESSOR>")
        | [] => refuse (.noValue "--processor <PROCESSOR>")
      | _, _, _ => refuse (.unexpected argument)
    | .short letters =>
      match of, letters with
      | _, 'h' :: _ => ask (.help [of])
      | .resolve, ['c'] =>
        match rest with
        | v :: rest =>
          if isValue v then do (← o.addSettings v).read of rest
          else refuse (.noValue "--config <FILE>")
        | [] => refuse (.noValue "--config <FILE>")
      | .resolve, 'c' :: '=' :: v => do (← o.addSettings (String.ofList v)).read of rest
      | .resolve, 'c' :: v => do (← o.addSettings (String.ofList v)).read of rest
      | _, _ => refuse (.unexpected argument)

/-- The job of a subcommand, once its arguments are read. -/
def job (o : Operands) : Subcommand → Reading Job
  | .assemble =>
    match o.positional with
    | [source, image] => .ok (.assemble source image)
    | [_] => refuse (.missing "<ROM>")
    | _ => refuse (.missing "<SOURCE> <ROM>")
  | _ =>
    match o.positional with
    | [image, table] => .ok (.resolve image table o.settings o.processor)
    | [_] => refuse (.missing "<BDEST>")
    | _ => refuse (.missing "<ROM> <BDEST>")

end Operands

/-! ## Calls -/

/-- Reads what is to be explained: `help` may be followed by subcommands, of which only `help` has
others below it. -/
def helpTopic (found : List Subcommand) (more : Bool) : List String → Reading (List Subcommand)
  | [] => .ok found
  | name :: rest =>
    match more, Subcommand.ofName? name with
    | true, some s => helpTopic (found ++ [s]) (s == .help) rest
    | _, _ => refuse (.unknownSubcommand name)

/-- Reads a cluster of letters in front of the subcommand. -/
def readLetters (verbose : Bool) (argument : String) : List Char → Reading Bool
  | [] => .ok verbose
  | 'v' :: rest =>
    if verbose then refuse (.repeated "--verbose") else readLetters true argument rest
  | 'h' :: _ => ask (.help [])
  | 'V' :: _ => ask .version
  | _ => refuse (.unexpected argument)

/-- Reads the arguments of a call. -/
def readCall (verbose : Bool) : List String → Reading Request
  | [] => refuse .noSubcommand
  | argument :: rest =>
    match shape argument with
    | .long "verbose" none =>
      if verbose then refuse (.repeated "--verbose") else readCall true rest
    | .long "help" none => ask (.help [])
    | .long "version" none => ask .version
    | .long _ _ => refuse (.unexpected argument)
    | .short letters => do
      readCall (← readLetters verbose argument letters) rest
    | .endOfOptions =>
      match rest with
      | [] => refuse .noSubcommand
      | next :: _ => refuse (.unexpected next)
    | .plain =>
      match Subcommand.ofName? argument with
      | none => refuse (.unknownSubcommand argument)
      | some .help => do ask (.help (← helpTopic [] true rest))
      | some s => do
        let operands ← Operands.empty.read s rest
        return .run verbose (← operands.job s)

/-- What a call asks for, or what is wrong with it. -/
def Request.ofArguments (arguments : List String) : Except UsageError Request :=
  match readCall false arguments with
  | .ok request => .ok request
  | .error stopped => stopped

end LoopTable.Command
