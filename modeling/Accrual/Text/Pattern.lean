/-
Regular expressions: which texts are patterns that a matcher can be built for.

A pattern is read for its form alone, nothing is matched.  It has the usual operators, groups with
names and flags, classes in brackets with set operations, and escapes.

* `Pattern.check` — a text is a pattern, or why not;
* `Pattern.Reading` — what has to be remembered on the way through a pattern.

A pattern here stands inside braces, so it has no closing brace of its own: counted repetition and
every escape with braces is malformed.  There are no tables of characters, so in Unicode mode,
which is on unless a flag turns it off, the classes of letters, digits and blanks and matching
without regard to case are refused.  Without that mode whatever could match part of a character
is.
-/
import Accrual.Bytes.Hex
import Accrual.Text.Classes

namespace Accrual

/-- Why no matcher can be built. -/
inductive PatternError where
  /-- The text is no pattern, or asks for tables that are missing. -/
  | malformed
  /-- The pattern asks where a word of letters of any script begins or ends. -/
  | wordBoundary
deriving DecidableEq

namespace Pattern

/-- The flags in force at a place in a pattern. -/
structure Mode where
  /-- Case is disregarded. -/
  caseless : Bool := false
  /-- Characters are matched, not bytes. -/
  unicode : Bool := true
  /-- White space and comments are skipped. -/
  spaced : Bool := false

/-- What has been read of a pattern so far. -/
structure Reading where
  mode : Mode := {}
  /-- What was read last can be repeated. -/
  repeatable : Bool := false
  /-- The flags outside each open group, innermost first. -/
  outside : List Mode := []
  /-- The names of groups. -/
  names : List (List Char) := []
  /-- A boundary of words has been asked for, in Unicode mode. -/
  boundary : Bool := false

/-- Skip white space and comments, where they are skipped. -/
def skipSpace (mode : Mode) (cs : List Char) : List Char :=
  if mode.spaced then go false cs else cs
where
  /-- Skip on, inside or outside a comment. -/
  go : Bool → List Char → List Char
    | _, [] => []
    | true, c :: rest => go (c ≠ '\n') rest
    | false, c :: rest =>
      if c = '#' then go true rest
      else if Text.isSpace c then go false rest
      else c :: rest

/-! ### Escapes -/

/-- What an escape stands for. -/
inductive Escape where
  /-- A character, given by its code in two digits or otherwise. -/
  | literal (c : Char) (byCode : Bool)
  /-- A class of characters. -/
  | klass
  /-- A place in the text, perhaps a boundary of words. -/
  | place (boundary : Bool)

/-- A number of so many hexadecimal digits. -/
def hexNumber? (mode : Mode) : Nat → Nat → List Char → Option (Nat × List Char)
  | 0, n, cs => some (n, skipSpace mode cs)
  | digits + 1, n, cs =>
    match skipSpace mode cs with
    | [] => none
    | c :: rest => do hexNumber? mode digits (16 * n + (← Hex.value? c)) rest

/-- A character by its code in so many digits. -/
def coded? (mode : Mode) (digits : Nat) (cs : List Char) : Option (Escape × List Char) := do
  let (n, rest) ← hexNumber? mode digits 0 cs
  if n.isValidChar then return (.literal (Char.ofNat n) (digits = 2), rest) else none

/-- An escape, from behind its backslash. -/
def escape? (mode : Mode) : List Char → Option (Escape × List Char)
  | [] => none
  | c :: rest =>
    if c = 'x' then coded? mode 2 rest
    else if c = 'u' then coded? mode 4 rest
    else if c = 'U' then coded? mode 8 rest
    else if c ∈ ['d', 's', 'w'] then if mode.unicode then none else some (.klass, rest)
    else if c ∈ ['a', 'f', 'n', 'r', 't', 'v'] then some (.literal c false, rest)
    else if c ∈ ['A', 'z'] then some (.place false, rest)
    else if c ∈ ['b', 'B', '<', '>'] then some (.place true, rest)
    else if c.toNat < 0x80 ∧ ¬ c.isAlphanum then some (.literal c false, rest)
    else none

/-! ### Classes in brackets -/

/-- The classes that have a name. -/
def classNames : List String :=
  ["alnum", "alpha", "ascii", "blank", "cntrl", "digit", "graph", "lower", "print", "punct",
    "space", "upper", "word", "xdigit"]

/-- What follows a class by name such as `[:alpha:]`, from behind the bracket; the flag says that
the class is turned round. -/
def namedClass? : List Char → Option (Bool × List Char)
  | ':' :: rest =>
    let (negated, rest) := match rest with
      | '^' :: rest => (true, rest)
      | rest => (false, rest)
    let (name, rest) := rest.span (· ≠ ':')
    match rest with
    | ':' :: ']' :: rest =>
      if classNames.contains (String.ofList name) then some (negated, rest) else none
    | _ => none
  | _ => none

/-- A character can be a member of a class. -/
def fits (mode : Mode) (c : Char) : Bool :=
  if mode.unicode then !mode.caseless else c.toNat < 0x80

/-- A member of a class: a character, or a class that an escape stands for. -/
def member? (mode : Mode) : List Char → Option (Option Char × List Char)
  | [] => none
  | '\\' :: rest =>
    match escape? mode rest with
    | some (.literal c _, rest) => if fits mode c then some (some c, rest) else none
    | some (.klass, rest) => some (none, rest)
    | _ => none
  | c :: rest => if fits mode c then some (some c, rest) else none

/-- A member of a class, or a range of them. -/
def range? (mode : Mode) (cs : List Char) : Option (List Char) := do
  let (first, rest) ← member? mode cs
  match skipSpace mode rest with
  | [] => none
  | '-' :: rest =>
    match skipSpace mode rest with
    | [] => none
    | c :: after =>
      if c = ']' ∨ c = '-' then return '-' :: rest
      else do
        let (last, rest) ← member? mode (c :: after)
        if (← first) ≤ (← last) then return rest else none
  | rest => return rest

/-- Hyphens at the beginning of a class stand for themselves, and so does a closing bracket in
their place. -/
def leading? (mode : Mode) : Nat → Bool → List Char → Option (List Char)
  | 0, _, _ => none
  | fuel + 1, first, cs =>
    match skipSpace mode cs with
    | [] => none
    | '-' :: rest => if fits mode '-' then leading? mode fuel false rest else none
    | ']' :: rest =>
      if !first then some (']' :: rest) else if fits mode ']' then some rest else none
    | rest => some rest

/-- The beginning of a class, from behind its bracket. -/
def opening? (mode : Mode) (cs : List Char) : Option (List Char) :=
  match skipSpace mode cs with
  | '^' :: rest => if mode.unicode then leading? mode rest.length.succ true rest else none
  | rest => leading? mode rest.length.succ true rest

/-- The rest of a class that is `depth` brackets deep. -/
def class? (mode : Mode) : Nat → Nat → List Char → Option (List Char)
  | 0, _, _ => none
  | fuel + 1, depth, cs =>
    match skipSpace mode cs with
    | [] => none
    | '[' :: rest =>
      match namedClass? rest with
      | some (negated, rest) =>
        if (if mode.unicode then mode.caseless else negated) then none
        else class? mode fuel depth rest
      | none => do class? mode fuel (depth + 1) (← opening? mode rest)
    | ']' :: rest => if depth = 1 then some rest else class? mode fuel (depth - 1) rest
    | '&' :: '&' :: rest | '-' :: '-' :: rest | '~' :: '~' :: rest => class? mode fuel depth rest
    | rest => do class? mode fuel depth (← range? mode rest)

/-! ### Groups -/

/-- The name of a group, from behind its opening angle. -/
def groupName? (cs : List Char) : Option (List Char × List Char) :=
  let (name, rest) := cs.span (· ≠ '>')
  match name, rest with
  | c :: more, _ :: rest =>
    if (c = '_' || Text.isAlphabetic c)
        && more.all (fun c => "_.[]".toList.contains c || Text.isAlphanumeric c) then
      some (name, rest)
    else none
  | _, _ => none

/-- Read flags up to the colon or closing bracket behind them.  `negated` says that a hyphen came
before, `seen` which flags there were. -/
def flags? (mode : Mode) (negated : Bool) (seen : List Char) :
    List Char → Option (Mode × List Char × List Char)
  | [] => none
  | c :: rest =>
    if c = ':' ∨ c = ')' then
      if seen.head? = some '-' then none else some (mode, seen, c :: rest)
    else if c ∈ seen then none
    else if c = '-' then flags? mode true (c :: seen) rest
    else if c = 'i' then flags? { mode with caseless := !negated } negated (c :: seen) rest
    else if c = 'u' then flags? { mode with unicode := !negated } negated (c :: seen) rest
    else if c = 'x' then flags? { mode with spaced := !negated } negated (c :: seen) rest
    else if c ∈ ['m', 's', 'U', 'R'] then flags? mode negated (c :: seen) rest
    else none

/-- Enter a group in which other flags are in force. -/
def Reading.enter (r : Reading) (mode : Mode) : Reading :=
  { r with mode, repeatable := false, outside := r.mode :: r.outside }

/-- Enter a group with a name, which no other group may have. -/
def Reading.enterNamed? (r : Reading) (cs : List Char) : Option (Reading × List Char) := do
  let (name, rest) ← groupName? cs
  if name ∈ r.names then none
  else return ({ r.enter r.mode with names := name :: r.names }, rest)

/-- Read the beginning of a group, from behind its bracket.  Flags in brackets of their own hold
up to the end of the group around them. -/
def Reading.group? (r : Reading) (cs : List Char) : Option (Reading × List Char) :=
  match skipSpace r.mode cs with
  | '?' :: '=' :: _ | '?' :: '!' :: _ | '?' :: '<' :: '=' :: _ | '?' :: '<' :: '!' :: _ => none
  | '?' :: 'P' :: '<' :: rest | '?' :: '<' :: rest => r.enterNamed? rest
  | '?' :: rest =>
    match flags? r.mode false [] rest with
    | some (mode, _, ':' :: rest) => some (r.enter mode, rest)
    | some (mode, _ :: _, ')' :: rest) => some ({ r with mode, repeatable := false }, rest)
    | _ => none
  | rest => some (r.enter r.mode, rest)

/-! ### Patterns -/

/-- What was read last can be repeated. -/
def Reading.done (r : Reading) : Reading := { r with repeatable := true }

/-- Read a character that stands for itself. -/
def Reading.literal? (r : Reading) : Option Reading :=
  if r.mode.unicode && r.mode.caseless then none else some r.done

/-- Read an escape, from behind its backslash. -/
def Reading.escape? (r : Reading) (cs : List Char) : Option (Reading × List Char) := do
  match ← Pattern.escape? r.mode cs with
  | (.literal c byCode, rest) =>
    if byCode ∧ ¬ r.mode.unicode ∧ 0x80 ≤ c.toNat then none else return (← r.literal?, rest)
  | (.klass, rest) => return (r.done, rest)
  | (.place boundary, rest) =>
    return ({ r.done with boundary := r.boundary || (boundary && r.mode.unicode) }, rest)

/-- Read one thing at the beginning of a pattern that is not empty. -/
def Reading.step? (r : Reading) (c : Char) (rest : List Char) : Option (Reading × List Char) :=
  match c with
  | '(' => r.group? rest
  | ')' =>
    match r.outside with
    | mode :: outside => some ({ r.done with mode, outside }, rest)
    | [] => none
  | '|' => some ({ r with repeatable := false }, rest)
  | '[' => do return (r.done, ← class? r.mode rest.length.succ 1 (← opening? r.mode rest))
  | '*' | '+' | '?' =>
    if r.repeatable then some (r, if rest.head? = some '?' then rest.tail else rest) else none
  | '\x7b' => none
  | '.' => if r.mode.unicode then some (r.done, rest) else none
  | '^' | '$' => some (r.done, rest)
  | '\\' => r.escape? rest
  | _ => do return (← r.literal?, rest)

/-- Read a pattern to its end. -/
def read? : Nat → Reading → List Char → Option Reading
  | 0, _, _ => none
  | fuel + 1, r, cs =>
    match skipSpace r.mode cs with
    | [] => if r.outside.isEmpty then some r else none
    | c :: rest => do
      let (r, rest) ← r.step? c rest
      read? fuel r rest

/-- Whether a matcher can be built for a text.  Every step takes a character away, so the length
of the text is fuel enough. -/
def check (cs : List Char) : Except PatternError Unit :=
  match read? (cs.length + 1) {} cs with
  | none => .error .malformed
  | some r => if r.boundary then .error .wordBoundary else .ok ()

end Pattern

end Accrual
