import LoopTable.Toml.Value

/-!
# Filling tables

A key may name its way through tables, which are made when they are not there yet. What may be
added where is a matter of how each table came about: a table with a header or braces is closed to
dotted keys, one with braces is closed altogether, and a header or key is not given twice.

* `Table.assign?` gives a key of dotted names a value.
* `Table.openTable?` and `Table.openElement?` follow a header.
-/

namespace LoopTable.Toml

/-- A key: the names of the tables it leads through, and the name it gives. -/
structure Key where
  /-- The names in front of the last one. -/
  parents : List String
  /-- The last name. -/
  name : String
  deriving DecidableEq

namespace Table

/-- Whether a way through this table is closed, to dotted keys or to headers. -/
def isClosed (dotted : Bool) (t : Table) : Bool :=
  match t.origin with
  | .braces => true
  | .header => dotted
  | .implied | .dotted => false

/-- Changes the table that a way of names leads to, and makes those on the way that are missing.
The way through the tables of a repeated header leads through the latest. -/
def changeAt? (t : Table) (dotted : Bool) (change : Table → Option Table) :
    List String → Option Table
  | [] => change t
  | name :: names =>
    match t.get? name with
    | none => do
      let child := empty (if dotted then .dotted else .implied)
      return t.set name (.table (← child.changeAt? dotted change names))
    | some (.table child) =>
      if child.isClosed dotted then none
      else do return t.set name (.table (← child.changeAt? dotted change names))
    | some (.tables latest earlier) => do
      return t.set name (.tables (← latest.changeAt? dotted change names) earlier)
    | some _ => none

/-- Gives a key a value. A table made by dotted keys is filled by them alone. -/
def assign? (key : Key) (value : Value) (t : Table) : Option Table :=
  let change (t : Table) : Option Table :=
    if (t.origin == .dotted) == key.parents.isEmpty then none else t.add? key.name value
  t.changeAt? true change key.parents

/-- Opens the table of a header. It must be new, or be there only because a header before it has
named it on its way. -/
def openTable? (key : Key) (t : Table) : Option Table :=
  let change (t : Table) : Option Table :=
    match t.get? key.name with
    | none => some (t.set key.name (.table (empty .header)))
    | some (.table child) =>
      if child.origin == .implied then
        some (t.set key.name (.table (child.withOrigin .header)))
      else
        none
    | some _ => none
  t.changeAt? false change key.parents

/-- Opens the next table of a repeated header, which must be new or have been repeated before. -/
def openElement? (key : Key) (t : Table) : Option Table :=
  let change (t : Table) : Option Table :=
    match t.get? key.name with
    | none => some (t.set key.name (.tables (empty .header) []))
    | some (.tables latest earlier) =>
      some (t.set key.name (.tables (empty .header) (latest :: earlier)))
    | some _ => none
  t.changeAt? false change key.parents

/-- Changes the table that the last header has opened. -/
def changeOpened? (key : Key) (change : Table → Option Table) (t : Table) : Option Table :=
  t.changeAt? false change (key.parents ++ [key.name])

end Table

end LoopTable.Toml
