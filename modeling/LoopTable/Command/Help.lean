import LoopTable.Settings.Basic
import LoopTable.Command.Arguments

/-!
# What the command says about itself

The version of the command, and the texts that explain how to call it and its subcommands.
-/

namespace LoopTable.Command

/-- The name of the command. -/
def commandName : String := "bf-bdest"

/-- The name and version of the command. -/
def versionText : String := "bf_bdest 0.1.0"

/-- How a subcommand is called. -/
def usageOf : Subcommand → String
  | .assemble => s!"{commandName} assemble <SOURCE> <ROM>"
  | .resolve => s!"{commandName} resolve [OPTIONS] <ROM> <BDEST>"
  | .help => s!"{commandName} help [COMMAND]..."

/-- What a subcommand does. -/
def about : Subcommand → String
  | .assemble => "Assemble un fichier source en image d'instructions brute"
  | .resolve => "Calcule la table des destinations de branchement d'une image"
  | .help => "Print this message or the help of the given subcommand(s)"

/-- How the command is called. -/
def usage : String := s!"{commandName} [OPTIONS] <COMMAND>"

/-- The lines on a subcommand in the explanation of the command. -/
def entryOf (s : Subcommand) : String :=
  "  " ++ Numeral.padRight 8 s.name ++ "  " ++ about s

/-- The explanation of the command. -/
def explanation : List String :=
  [s!"Usage: {usage}", "", "Commands:"] ++
    [Subcommand.assemble, .resolve, .help].map entryOf ++
    ["", "Options:",
      "  -v, --verbose  Affiche les messages de debug",
      "  -h, --help     Print help",
      "  -V, --version  Print version"]

/-- The explanation of a subcommand. -/
def explanationOf (s : Subcommand) : List String :=
  let call := usageOf s
  let top := [about s, "", s!"Usage: {call}", ""]
  match s with
  | .assemble => top ++
    ["Arguments:", "  <SOURCE>  ", "  <ROM>     ", "", "Options:", "  -h, --help  Print help"]
  | .resolve => top ++
    ["Arguments:", "  <ROM>    ", "  <BDEST>  ", "", "Options:",
      "  -c, --config <FILE>          Fichier de configuration TOML de l'analyseur",
      s!"      --processor <PROCESSOR>  Processeur déclaré pour l'image [default: {processorName}]",
      "  -h, --help                   Print help"]
  | .help => top ++ ["Arguments:", "  [COMMAND]...  Print help for the subcommand(s)"]

/-- The explanation that subcommands lead to. -/
def explanationFor (of : List Subcommand) : List String :=
  match of.getLast? with
  | none => explanation
  | some s => explanationOf s

/-- The explanation of a mistake in a call. -/
def explanationOfError (e : UsageError) : List String :=
  let reason := e.message
  [s!"error: {reason}", "", s!"Usage: {usage}", "", "For more information, try '--help'."]

end LoopTable.Command
