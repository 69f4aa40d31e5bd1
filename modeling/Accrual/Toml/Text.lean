/-
Blanks, keys and strings of TOML.

* `Toml.skipSpace` — past blanks, comments and line breaks;
* `Toml.string?` — a string of any of the four kinds;
* `Toml.key?` — a bare, quoted or dotted key.

Design notes.  In a string of several lines, a run of up to two quotes is text.  A longer run ends
the string; of its quotes the last three close it, and at most two stand before them.
-/
import Accrual.Bytes.Hex
import Accrual.Toml.Value

namespace Accrual

namespace Toml

/-! ### Blanks, comments and line breaks -/

/-- Blanks within a line. -/
def isBlank (c : Char) : Bool := c = ' ' || c = '\t'

/-- The text after blanks. -/
def skipBlanks (cs : List Char) : List Char := cs.dropWhile isBlank

/-- Characters that may stand in comments and in strings: no control characters but the tab. -/
def isText (c : Char) : Bool := c = '\t' || (' ' ≤ c && c ≠ '\x7f')

/-- The text after a line break. -/
def lineBreak? : List Char → Option (List Char)
  | '\n' :: rest => some rest
  | '\r' :: '\n' :: rest => some rest
  | _ => none

/-- The text after blanks and line breaks. -/
def skipGap : List Char → List Char
  | [] => []
  | '\n' :: rest => skipGap rest
  | '\r' :: '\n' :: rest => skipGap rest
  | c :: rest => if isBlank c then skipGap rest else c :: rest

/-- The text after blanks, line breaks and comments; `comment` says whether a comment has begun. -/
def skipSpace (comment : Bool) : List Char → List Char
  | [] => []
  | '\n' :: rest => skipSpace false rest
  | '\r' :: '\n' :: rest => skipSpace false rest
  | c :: rest =>
    if comment then (if isText c then skipSpace true rest else c :: rest)
    else if isBlank c then skipSpace false rest
    else if c = '#' then skipSpace true rest
    else c :: rest

/-- The text after the end of a line, which blanks and a comment may precede. -/
def endOfLine? (cs : List Char) : Option (List Char) :=
  let rest := match skipBlanks cs with
    | '#' :: rest => rest.dropWhile isText
    | rest => rest
  if rest.isEmpty then some [] else lineBreak? rest

/-! ### Strings -/

/-- The character with a code in hexadecimal digits. -/
def codePoint? (digits : List Char) : Option Char := do
  let n ← digits.foldlM (fun n c => do return 16 * n + (← Hex.value? c)) 0
  if n < 0xd800 ∨ (0xdfff < n ∧ n < 0x110000) then some (Char.ofNat n) else none

/-- The character that an escape stands for, after its backslash. -/
def escape? : List Char → Option (Char × List Char)
  | 'b' :: rest => some ('\x08', rest)
  | 'f' :: rest => some ('\x0c', rest)
  | 'n' :: rest => some ('\n', rest)
  | 'r' :: rest => some ('\r', rest)
  | 't' :: rest => some ('\t', rest)
  | '"' :: rest => some ('"', rest)
  | '\\' :: rest => some ('\\', rest)
  | 'u' :: rest => hex 4 rest
  | 'U' :: rest => hex 8 rest
  | _ => none
where
  /-- An escape with a number of digits. -/
  hex (n : Nat) (cs : List Char) : Option (Char × List Char) :=
    if cs.length < n then none else (codePoint? (cs.take n)).map fun c => (c, cs.drop n)

/-- The text of a string up to its closing quotes.  Double quotes allow escapes, `lines` allows
line breaks; there a backslash at the end of a line hides all space up to the next text. -/
def body? (quote : Char) (lines : Bool) : Nat → List Char → Option (List Char × List Char)
  | 0, _ => none
  | _ + 1, [] => none
  | fuel + 1, c :: rest =>
    if c = quote then
      if lines then
        let run := ((c :: rest).takeWhile (· = quote)).length
        if run < 3 then
          push (List.replicate run quote) (body? quote lines fuel ((c :: rest).drop run))
        else
          let kept := min (run - 3) 2
          some (List.replicate kept quote, (c :: rest).drop (kept + 3))
      else some ([], rest)
    else if c = '\\' ∧ quote = '"' then
      match if lines then lineBreak? (skipBlanks rest) else none with
      | some rest => body? quote lines fuel (skipGap rest)
      | none => do
        let (e, rest) ← escape? rest
        push [e] (body? quote lines fuel rest)
    else
      match if lines then lineBreak? (c :: rest) else none with
      | some rest => push ['\n'] (body? quote lines fuel rest)
      | none => if isText c then push [c] (body? quote lines fuel rest) else none
where
  /-- Text in front of what follows. -/
  push (front : List Char) (r : Option (List Char × List Char)) : Option (List Char × List Char) :=
    r.map fun p => (front ++ p.1, p.2)

/-- Whether a character opens a string. -/
def isQuote (c : Char) : Bool := c = '"' || c = '\x27'

/-- A string on one line. -/
def lineString? : List Char → Option (String × List Char)
  | q :: rest =>
    if isQuote q then (body? q false (rest.length + 1) rest).map fun p => (String.ofList p.1, p.2)
    else none
  | [] => none

/-- A string. -/
def string? (cs : List Char) : Option (String × List Char) :=
  match cs with
  | q :: q' :: q'' :: rest =>
    if isQuote q ∧ q' = q ∧ q'' = q then
      let rest := (lineBreak? rest).getD rest
      (body? q true (rest.length + 1) rest).map fun p => (String.ofList p.1, p.2)
    else lineString? cs
  | _ => lineString? cs

/-! ### Keys -/

/-- Characters of a key without quotes. -/
def isBare (c : Char) : Bool := c.isAlphanum || c = '-' || c = '_'

/-- One part of a key. -/
def part? (cs : List Char) : Option (String × List Char) :=
  match lineString? cs with
  | some r => some r
  | none =>
    let (part, rest) := cs.span isBare
    if part.isEmpty then none else some (String.ofList part, rest)

/-- The parts of a key with points between them, and the blanks around each. -/
def parts? : Nat → List Char → Option (List String × List Char)
  | 0, _ => none
  | fuel + 1, cs => do
    let (part, rest) ← part? (skipBlanks cs)
    match skipBlanks rest with
    | '.' :: rest =>
      let (more, rest) ← parts? fuel rest
      return (part :: more, rest)
    | rest => return ([part], rest)

/-- How deep arrays and tables in braces may be nested, and how many parts a key may have. -/
def maxDepth : Nat := 79

/-- A key. -/
def key? (cs : List Char) : Option (Key × List Char) := do
  let (parts, rest) ← parts? (cs.length + 1) cs
  if maxDepth < parts.length then none
  else return (⟨parts.dropLast, ← parts.getLast?⟩, rest)

end Toml

end Accrual
