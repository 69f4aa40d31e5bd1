/-
Reading TOML documents.

* `Toml.value?` — a value;
* `Toml.line?` — a line;
* `Toml.read?` — the entries of a whole document.

Design notes.  The reader takes fuel, which every step uses up together with a character or after
one.  Depth is counted apart from it, because a document may not nest deeper than `maxDepth`.
-/
import Accrual.Toml.Number

namespace Accrual

namespace Toml

/-- What follows a given word. -/
def word? (word : List Char) (v : Value) (cs : List Char) : Option (Value × List Char) :=
  if word.isPrefixOf cs then some (v, cs.drop word.length) else none

mutual

/-- A value and the text after it. -/
def value? : Nat → Nat → List Char → Option (Value × List Char)
  | 0, _, _ => none
  | _ + 1, _, [] => none
  | fuel + 1, depth, c :: rest =>
    if isQuote c then (string? (c :: rest)).map fun p => (.string p.1, p.2)
    else if c = '[' then
      match depth with
      | 0 => none
      | depth + 1 => (elements? fuel depth rest).map fun p => (.array p.1, p.2)
    else if c = '\x7b' then
      match depth with
      | 0 => none
      | depth + 1 =>
        match skipBlanks rest with
        | '\x7d' :: rest => some (.table .closed [], rest)
        | rest => do
          let (assignments, rest) ← assignments? fuel depth rest
          return (.table .closed (← Entries.ofAssignments? assignments), rest)
    else if c = 't' then word? ['t', 'r', 'u', 'e'] (.bool true) (c :: rest)
    else if c = 'f' then word? ['f', 'a', 'l', 's', 'e'] (.bool false) (c :: rest)
    else (moment? (c :: rest)).orElse fun _ => number? (c :: rest)

/-- The elements of an array up to its closing bracket. -/
def elements? : Nat → Nat → List Char → Option (List Value × List Char)
  | 0, _, _ => none
  | fuel + 1, depth, cs =>
    match skipSpace false cs with
    | ']' :: rest => some ([], rest)
    | cs => do
      let (v, rest) ← value? fuel depth cs
      match skipSpace false rest with
      | ',' :: rest =>
        let (more, rest) ← elements? fuel depth rest
        return (v :: more, rest)
      | ']' :: rest => return ([v], rest)
      | _ => none

/-- The assignments of a table in braces up to its closing brace, at least one. -/
def assignments? : Nat → Nat → List Char → Option (List (Key × Value) × List Char)
  | 0, _, _ => none
  | fuel + 1, depth, cs => do
    let (key, rest) ← key? cs
    let (v, rest) ← value? fuel depth (skipBlanks (← after? '=' rest))
    match skipBlanks rest with
    | ',' :: rest =>
      let (more, rest) ← assignments? fuel depth rest
      return ((key, v) :: more, rest)
    | '\x7d' :: rest => return ([(key, v)], rest)
    | _ => none

end

/-- What a line says, and the text after it up to blanks and a comment. -/
def line? (fuel : Nat) (cs : List Char) : Option (Line × List Char) :=
  match cs with
  | '[' :: '[' :: rest => do
    let (key, rest) ← key? rest
    return (.nextTable key, ← after? ']' (← after? ']' rest))
  | '[' :: rest => do
    let (key, rest) ← key? rest
    return (.table key, ← after? ']' rest)
  | [] | '#' :: _ | '\n' :: _ | '\r' :: _ => some (.blank, cs)
  | _ => do
    let (key, rest) ← key? cs
    let (v, rest) ← value? fuel maxDepth (skipBlanks (← after? '=' rest))
    return (.assign key v, rest)

/-- The lines of a text. -/
def lines? : Nat → List Char → Option (List Line)
  | 0, _ => none
  | _ + 1, [] => some []
  | fuel + 1, cs => do
    let (line, rest) ← line? (2 * cs.length + 2) (skipBlanks cs)
    return line :: (← lines? fuel (← endOfLine? rest))

/-- The entries of a document.  A byte order mark in front is skipped. -/
def read? (text : String) : Option Entries := do
  let cs := match text.toList with
    | '\ufeff' :: rest => rest
    | cs => cs
  let d ← Document.ofLines? (← lines? (cs.length + 1) cs)
  return d.entries

end Toml

end Accrual
