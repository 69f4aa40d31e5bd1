/-
TOML values, and the document that the lines of a text build up.

* `Toml.Value` — a value, a table or an array of tables;
* `Toml.Line` — what one line of a document says;
* `Toml.Document.add?` — the document after one more line, or nothing if the line defines again
  what is already defined.

Design notes.  Whether a table may be extended depends on how it came to be (`Origin`): a header
may name a table that so far only longer headers implied, a dotted key may go through a table that
dotted keys made or headers implied but add only to one that dotted keys made, and a table written
in braces is complete.
-/
import Accrual.Decimal.Basic

namespace Accrual

namespace Toml

/-- How a table came to be. -/
inductive Origin where
  /-- A header names it. -/
  | header
  /-- It stands on the way to a table that a header names. -/
  | implied
  /-- It stands on the way of a dotted key. -/
  | dotted
  /-- It is written in braces. -/
  | closed
deriving DecidableEq

/-- A value.  Floats, dates and times are kept as they are written. -/
inductive Value where
  | string (s : String)
  | integer (n : Int)
  | float (text : String)
  | bool (b : Bool)
  | moment (text : String)
  | array (elements : List Value)
  | table (origin : Origin) (entries : List (String × Value))
  /-- An array that headers extend. -/
  | tables (elements : List (List (String × Value)))

/-- The entries of a table, in the order of their definition. -/
abbrev Entries := List (String × Value)

/-- A key: the tables on the way, and the name in the last of them. -/
structure Key where
  parents : List String
  name : String

/-- What one line says. -/
inductive Line where
  | blank
  | assign (key : Key) (v : Value)
  | table (key : Key)
  | nextTable (key : Key)

namespace Entries

/-- Put a value in place of the one with this name. -/
def replace (entries : Entries) (name : String) (v : Value) : Entries :=
  entries.map fun e => if e.1 = name then (name, v) else e

/-- Change the table that a path leads to.  Tables that are missing on the way are made, with
origin `fresh`.  A path of dotted keys does not lead through a table that a header names, and no
path leads through a closed table or past the last table of an array. -/
def change? (fresh : Origin) (act : Origin → Entries → Option Entries) :
    List String → Origin → Entries → Option Entries
  | [], origin, entries => act origin entries
  | name :: path, _, entries =>
    match entries.lookup name with
    | none =>
      (change? fresh act path fresh []).map fun inner => entries ++ [(name, .table fresh inner)]
    | some (.table origin inner) =>
      if origin = .closed ∨ (fresh = .dotted ∧ origin = .header) then none
      else (change? fresh act path origin inner).map fun inner =>
        replace entries name (.table origin inner)
    | some (.tables elements) =>
      elements.getLast?.bind fun last =>
        (change? fresh act path .header last).map fun last =>
          replace entries name (.tables (elements.dropLast ++ [last]))
    | some _ => none

/-- Give a dotted key its value. -/
def assign? (entries : Entries) (key : Key) (v : Value) : Option Entries :=
  change? .dotted (fun origin inner =>
    if (key.parents = [] ∨ origin = .dotted) ∧ (inner.lookup key.name).isNone then
      some (inner ++ [(key.name, v)])
    else none) key.parents .header entries

/-- The table in braces with these assignments. -/
def ofAssignments? (assignments : List (Key × Value)) : Option Entries :=
  assignments.foldlM (fun entries (a : Key × Value) => assign? entries a.1 a.2) []

end Entries

/-- A document so far. -/
structure Document where
  entries : Entries
  /-- The path to the table that assignments go to. -/
  here : List String

namespace Document

/-- The document without lines. -/
def empty : Document := ⟨[], []⟩

/-- Go to the table a header names, after `act` has prepared it. -/
def goTo? (d : Document) (key : Key) (act : Option Value → Option Value) : Option Document := do
  let entries ← Entries.change? .implied (fun _ inner => do
    let v ← act (inner.lookup key.name)
    if (inner.lookup key.name).isSome then return Entries.replace inner key.name v
    else return inner ++ [(key.name, v)]) key.parents .header d.entries
  return ⟨entries, key.parents ++ [key.name]⟩

/-- The document after one more line. -/
def add? (d : Document) : Line → Option Document
  | .blank => some d
  | .assign key v => do
    let entries ←
      Entries.change? .implied (fun _ inner => Entries.assign? inner key v) d.here .header d.entries
    return { d with entries }
  | .table key => d.goTo? key fun
    | none => some (.table .header [])
    | some (.table .implied inner) => some (.table .header inner)
    | some _ => none
  | .nextTable key => d.goTo? key fun
    | none => some (.tables [[]])
    | some (.tables elements) => some (.tables (elements ++ [[]]))
    | some _ => none

/-- The document that lines build up. -/
def ofLines? (lines : List Line) : Option Document := lines.foldlM add? empty

end Document

end Toml

end Accrual
