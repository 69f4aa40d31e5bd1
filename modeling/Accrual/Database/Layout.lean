/-
How a table of a database is laid out, from the statement that created it.

The statement names the columns in order.  In a row the fields stand in that order too, except
that a table without row numbers puts the columns of its primary key first.

* `Token.ofChars?` — the words and marks of a statement;
* `Layout.ofTokens?` — the layout that a statement describes;
* `Layout.position?` — where a row has the field of a column.
-/

namespace Accrual

/-- A word or mark of a statement. -/
inductive Token where
  /-- A name or word of the language. -/
  | word (text : String)
  /-- A name in quotes. -/
  | quoted (text : String)
  /-- A number. -/
  | number
  | mark (c : Char)
deriving DecidableEq

namespace Token

/-- Two names are the same: case does not count. -/
def sameName (a b : String) : Bool := a.map Char.toLower = b.map Char.toLower

/-- Whether a token is a word of the language. -/
def isWord (word : String) : Token → Bool
  | .word text => sameName text word
  | _ => false

/-- The name that a token is. -/
def name? : Token → Option String
  | .word text | .quoted text => some text
  | _ => none

/-- Whether a name may begin with a character. -/
def beginsName (c : Char) : Bool := c.isAlpha || c = '_' || decide ('\x7f' < c)

/-- Whether a name or number may go on with a character. -/
def continuesName (c : Char) : Bool := beginsName c || c.isDigit || c = '$'

/-- The text up to a closing quote, which stands for itself if written twice, and what follows. -/
def quote? (close : Char) : List Char → Option (List Char × List Char)
  | [] => none
  | c :: rest =>
    if c ≠ close then (quote? close rest).map fun p => (c :: p.1, p.2)
    else
      match rest with
      | [] => some ([], [])
      | d :: more =>
        if d = close ∧ close ≠ ']' then (quote? close more).map fun p => (close :: p.1, p.2)
        else some ([], d :: more)

/-- What follows a comment that ends with two characters, if it ends. -/
def skipComment : List Char → List Char
  | '*' :: '/' :: rest => rest
  | _ :: rest => skipComment rest
  | [] => []

/-- The tokens of a statement, with fuel for each. -/
def scan? : Nat → List Char → Option (List Token)
  | 0, _ => none
  | _, [] => some []
  | fuel + 1, c :: rest =>
    if c ∈ [' ', '\t', '\n', '\x0c', '\r'] then scan? fuel rest
    else if c = '-' ∧ rest.head? = some '-' then scan? fuel (rest.dropWhile (· ≠ '\n'))
    else if c = '/' ∧ rest.head? = some '*' then scan? fuel (skipComment rest.tail)
    else if c ∈ ['"', '\'', '\x60', '['] then do
      let (text, rest) ← quote? (if c = '[' then ']' else c) rest
      return .quoted (String.ofList text) :: (← scan? fuel rest)
    else
      let (more, after) := rest.span continuesName
      if beginsName c then
        (scan? fuel after).map (.word (String.ofList (c :: more)) :: ·)
      else if c.isDigit then (scan? fuel after).map (.number :: ·)
      else (scan? fuel rest).map (.mark c :: ·)

/-- The tokens of a statement. -/
def ofChars? (cs : List Char) : Option (List Token) := scan? (cs.length + 1) cs

/-- The tokens up to the bracket that closes `depth` open ones, and those behind it. -/
def bracketed? : Nat → List Token → Option (List Token × List Token)
  | _, [] => none
  | depth, t :: rest =>
    if t = .mark ')' then
      match depth with
      | 0 => none
      | 1 => some ([], rest)
      | depth + 1 => (bracketed? depth rest).map fun p => (t :: p.1, p.2)
    else
      (bracketed? (if t = .mark '(' then depth + 1 else depth) rest).map fun p =>
        (t :: p.1, p.2)

/-- The parts between the commas that stand in no bracket. -/
def parts (tokens : List Token) : List (List Token) :=
  let split := tokens.foldr (fun t (acc : Nat × List Token × List (List Token)) =>
    let (depth, part, done) := acc
    if t = .mark ')' then (depth + 1, t :: part, done)
    else if t = .mark '(' then (depth - 1, t :: part, done)
    else if t = .mark ',' ∧ depth = 0 then (0, [], part :: done)
    else (depth, t :: part, done)) (0, [], [])
  split.2.1 :: split.2.2

/-- Whether two words of the language follow one another, outside of brackets or in them. -/
def hasWords (first second : String) : List Token → Bool
  | a :: b :: rest => (isWord first a && isWord second b) || hasWords first second (b :: rest)
  | _ => false

end Token

/-- How a table is laid out. -/
structure Layout where
  name : String
  /-- The columns in the order in which they were declared. -/
  columns : List String
  /-- The columns of the primary key. -/
  primary : List String
  /-- Whether rows have numbers. -/
  numbered : Bool

namespace Layout

/-- The words that begin a condition on the whole table. -/
def conditionWords : List String := ["constraint", "primary", "unique", "check", "foreign"]

/-- The columns in the brackets behind the words `PRIMARY KEY`. -/
def keyColumns? : List Token → Option (List String)
  | a :: b :: .mark '(' :: rest =>
    if a.isWord "primary" && b.isWord "key" then do
      let (inner, _) ← Token.bracketed? 1 rest
      (Token.parts inner).mapM fun part => part.head?.bind Token.name?
    else keyColumns? (b :: .mark '(' :: rest)
  | _ :: rest => keyColumns? rest
  | [] => none

/-- Add what a part of a statement declares: a column or a condition on the table. -/
def declare? (layout : Layout) (part : List Token) : Option Layout := do
  let first ← part.head?
  if conditionWords.any first.isWord then
    return { layout with primary := layout.primary ++ (keyColumns? part).getD [] }
  else
    let column ← first.name?
    let primary := if Token.hasWords "primary" "key" part.tail then [column] else []
    return { layout with
      columns := layout.columns ++ [column]
      primary := layout.primary ++ primary }

/-- The layout of the table that a statement creates. -/
def ofTokens? : List Token → Option Layout
  | create :: table :: name :: .mark '(' :: rest =>
    if create.isWord "create" && table.isWord "table" then do
      let (inner, options) ← Token.bracketed? 1 rest
      let name ← name.name?
      let layout ← (Token.parts inner).foldlM declare? ⟨name, [], [], true⟩
      if ¬ Token.hasWords "without" "rowid" options then return layout
      else if layout.primary.isEmpty then none
      else return { layout with numbered := false }
    else none
  | _ => none

/-- The columns in the order in which rows have their fields. -/
def stored (layout : Layout) : List String :=
  if layout.numbered then layout.columns
  else
    layout.primary ++ layout.columns.filter fun c => !layout.primary.any (Token.sameName c)

/-- Where a row has the field of a column. -/
def position? (layout : Layout) (column : String) : Option Nat :=
  layout.stored.findIdx? (Token.sameName column)

end Layout

end Accrual
