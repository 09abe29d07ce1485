import LoopTable.Log.Record
import LoopTable.Pattern.Basic

/-!
# Which records are shown

A `Filter` decides by component and level. It starts from a level for all components, and a text
can change it: directives with commas between them, each a level for all components, a component
or a component with its level; behind a slash, a pattern that has to occur in every shown record.

* `Filter.update` reads such a text into a filter and gives a warning for each part of it that
  makes no sense.
* `Filter.shows` says whether a record is shown.
-/

namespace LoopTable

/-- The least grave level that is shown, if anything is. -/
abbrev Threshold := Option Level

namespace Threshold

/-- Everything is shown. -/
def all : Threshold := some .trace

/-- The threshold of a name, in either case. -/
def ofName? (name : String) : Option Threshold :=
  match name.toList.map Char.toLower |> String.ofList with
  | "off" => some none
  | "error" => some (some .error)
  | "warn" => some (some .warn)
  | "info" => some (some .info)
  | "debug" => some (some .debug)
  | "trace" => some (some .trace)
  | _ => none

/-- Whether a level is at least as grave as the threshold. -/
def shows (threshold : Threshold) (level : Level) : Bool :=
  match threshold with
  | none => false
  | some limit => level.rank ≤ limit.rank

end Threshold

/-- A threshold for all components, or for those whose name starts in some way. -/
structure Directive where
  /-- How the names of the components start. -/
  start : Option (List Char)
  /-- The threshold for them. -/
  threshold : Threshold
  deriving DecidableEq

/-- Thresholds by component, and a pattern for the shown records. -/
structure Filter where
  /-- The thresholds, in the order in which they were given. -/
  directives : List Directive
  /-- What occurs in every shown record. -/
  pattern : Option Pattern
  deriving DecidableEq

/-- The parts of a text between the separators in it. -/
def splitAtChar (separator : Char) : List Char → List (List Char)
  | [] => [[]]
  | c :: rest =>
    match splitAtChar separator rest with
    | [] => [[c]]
    | first :: others => if c = separator then [] :: first :: others else (c :: first) :: others

/-- The text without the white space around it. -/
def trimSpace (s : List Char) : List Char :=
  ((s.dropWhile isSpace).reverse.dropWhile isSpace).reverse

namespace Directive

/-- Reads a directive, or gives what to warn of. -/
def ofText (s : List Char) : Except String Directive :=
  match splitAtChar '=' s with
  | [part] =>
    match Threshold.ofName? (String.ofList part) with
    | some threshold => .ok ⟨none, threshold⟩
    | none => .ok ⟨some part, .all⟩
  | [component, part] =>
    let name := String.ofList (trimSpace part)
    if name.isEmpty then
      .ok ⟨some component, .all⟩
    else
      match Threshold.ofName? name with
      | some threshold => .ok ⟨some component, threshold⟩
      | none => .error s!"invalid logging spec '{name}'"
  | _ =>
    let whole := String.ofList s
    .error s!"invalid logging spec '{whole}'"

/-- Whether a directive is for a component. -/
def fits (directive : Directive) (component : Component) : Bool :=
  match directive.start with
  | none => true
  | some start => start.isPrefixOf component.name.toList

/-- How much of a name a directive tells. -/
def length (directive : Directive) : Nat :=
  match directive.start with
  | none => 0
  | some start => start.length

end Directive

namespace Filter

/-- One threshold for all components. -/
def ofThreshold (threshold : Threshold) : Filter :=
  ⟨[⟨none, threshold⟩], none⟩

/-- Adds a directive, in the place of one for the same start of names if there is one. -/
def insert (filter : Filter) (directive : Directive) : Filter :=
  if filter.directives.any (·.start == directive.start) then
    { filter with
      directives := filter.directives.map fun d =>
        if d.start == directive.start then directive else d }
  else
    { filter with directives := filter.directives ++ [directive] }

/-- Reads directives into a filter; what makes no sense is left out with a warning. -/
def insertAll (filter : Filter) : List (List Char) → Filter × List String
  | [] => (filter, [])
  | s :: rest =>
    if s.isEmpty then
      filter.insertAll rest
    else
      match Directive.ofText s with
      | .ok directive => (filter.insert directive).insertAll rest
      | .error warning =>
        let (filter, warnings) := filter.insertAll rest
        (filter, warning :: warnings)

/-- Demands that a pattern occurs in the shown records. A text that is none is left out with a
warning. -/
def demand (filter : Filter) (text : List Char) : Filter × List String :=
  let written := String.ofList text
  match Pattern.ofText written with
  | .ok pattern => ({ filter with pattern := some pattern }, [])
  | .error flaw =>
    let problem := flaw.message written
    (filter, [s!"invalid regex filter - {problem}"])

/-- Reads a text into a filter, with the warnings that come of it. -/
def update (filter : Filter) (text : String) : Filter × List String :=
  match splitAtChar '/' text.toList with
  | [directives] => filter.insertAll ((splitAtChar ',' directives).map trimSpace)
  | [directives, demanded] =>
    let (filter, warnings) := filter.insertAll ((splitAtChar ',' directives).map trimSpace)
    let (filter, others) := filter.demand demanded
    (filter, warnings ++ others)
  | _ => (filter, [s!"invalid logging spec '{text}' (too many '/'s)"])

/-- The directive for a component: of those that fit, the one that tells most of the name, and of
two that tell as much the later. -/
def directiveFor? (filter : Filter) (component : Component) : Option Directive :=
  (filter.directives.filter (·.fits component)).foldl
    (fun best d =>
      match best with
      | none => some d
      | some b => if b.length ≤ d.length then some d else some b)
    none

/-- Whether a record is shown. -/
def shows (filter : Filter) (record : Record) : Bool :=
  match filter.directiveFor? record.component with
  | none => false
  | some directive =>
    directive.threshold.shows record.level &&
      filter.pattern.all fun pattern => pattern.occursIn record.text

end Filter

end LoopTable
