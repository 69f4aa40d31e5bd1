/-
Log filters: which messages a program writes about itself.

A filter is a list of directives with commas between them; empty ones are skipped.  A directive is
a level, or a target, a span or both, with a level behind an equals sign if wanted:

    level     target     target=level     target[span]=level     [span{field=value}]=level

`LogFilter.check` says whether a text is a filter, and if not, why.

White space around a directive is passed over, but the level and the field are then looked for as
far from the beginning of the text as they are from the first character behind that space.  So a
level is never found in a padded directive, and the field may be other text.
-/
import Accrual.Bytes.Basic
import Accrual.Text.Pattern

namespace Accrual

namespace LogFilter

/-- Why a text is not a filter. -/
inductive FilterError where
  /-- A directive has none of the forms. -/
  | directive
  /-- What stands behind an equals sign is not a level. -/
  | level
  /-- The value of a field is not a pattern. -/
  | field (cause : PatternError)
deriving DecidableEq

/-- The wording of a refused pattern. -/
def patternMessage : PatternError → String
  | .malformed => "error building NFA"
  | .wordBoundary =>
    "unsupported regex feature for DFAs: cannot build DFAs for regexes with Unicode word "
      ++ "boundaries; switch to ASCII word boundaries, or heuristically enable Unicode word "
      ++ "boundaries or use a different regex engine"

/-- The wording of a refused filter. -/
def FilterError.message : FilterError → String
  | .directive => "invalid filter directive"
  | .level =>
    "error parsing level filter: expected one of \"off\", \"error\", \"warn\", \"info\", "
      ++ "\"debug\", \"trace\", or a number 0-5"
  | .field cause => "invalid field filter: " ++ patternMessage cause

/-! ### Levels -/

/-- Whether a text is a level: a name in letters of either case, or a number up to 5. -/
def isLevel (cs : List Char) : Bool :=
  let digits := match cs with
    | '+' :: rest => rest
    | rest => rest
  let names := ["off", "error", "warn", "info", "debug", "trace"]
  (!digits.isEmpty && digits.all Char.isDigit
      && decide (digits.foldl (fun n c => 10 * n + (c.toNat - 48)) 0 ≤ 5))
    || names.contains (String.ofList (cs.map Char.toLower))

/-! ### Fields -/

/-- Whether a text is the exponent of a number. -/
def isExponent (cs : List Char) : Bool :=
  let digits := match cs with
    | '+' :: rest | '-' :: rest => rest
    | rest => rest
  !digits.isEmpty && digits.all Char.isDigit

/-- Whether a text is a number without a sign. -/
def isUnsigned (cs : List Char) : Bool :=
  let (whole, rest) := cs.span Char.isDigit
  let (fraction, rest) := match rest with
    | '.' :: rest => rest.span Char.isDigit
    | rest => ([], rest)
  let names := ["inf", "infinity", "nan"]
  names.contains (String.ofList (cs.map Char.toLower))
    || (!(whole ++ fraction).isEmpty
      && match rest with
        | [] => true
        | c :: rest => (c = 'e' || c = 'E') && isExponent rest)

/-- Check the value of a field.  All numbers but those with a plus sign are patterns too. -/
def checkValue (cs : List Char) : Except FilterError Unit :=
  match cs with
  | '+' :: rest => if isUnsigned rest then .ok () else (Pattern.check cs).mapError .field
  | _ => (Pattern.check cs).mapError .field

/-- Check a field: a name, and a value behind an equals sign if wanted.  What follows a second
equals sign does not count. -/
def checkField (cs : List Char) : Except FilterError Unit :=
  match cs.dropWhile (· ≠ '=') with
  | [] => .ok ()
  | _ :: rest => checkValue (rest.takeWhile (· ≠ '='))

/-! ### Directives -/

/-- A text without the white space around it. -/
def trim (cs : List Char) : List Char :=
  ((cs.dropWhile Text.isSpace).reverse.dropWhile Text.isSpace).reverse

/-- A directive as it stands, and without the white space around it. -/
structure Directive where
  text : String
  body : List Char

/-- The directive in a text. -/
def Directive.ofText (text : String) : Directive := ⟨text, trim text.toList⟩

/-- The number of bytes of a text. -/
def size (cs : List Char) : Nat := (String.ofList cs).utf8ByteSize

/-- The field that is found in place of `field`, which `rest` begins with. -/
def Directive.field? (d : Directive) (field rest : List Char) : Option (List Char) :=
  let bytes := (Bytes.ofString d.text).drop (size d.body - size rest)
  (Bytes.toString? (bytes.take (size field))).map String.toList

/-- Whether a target may begin with a character. -/
def beginsTarget (c : Char) : Bool := Text.isAlphanumeric c || c = '-' || c = ':' || c = '_'

/-- Check the level behind an equals sign, which may be missing. -/
def Directive.checkLevel (d : Directive) (cs : List Char) : Except FilterError Unit :=
  if d.text.toList = d.body ∧ (cs.isEmpty ∨ isLevel cs) then .ok () else .error .level

/-- Check what follows a span. -/
def Directive.checkAfterSpan (d : Directive) : List Char → Except FilterError Unit
  | [] => .ok ()
  | '=' :: level => d.checkLevel level
  | _ => .error .directive

/-- Check the field of a span from behind its opening brace. -/
def Directive.checkBraces (d : Directive) (cs : List Char) : Except FilterError Unit := do
  let (field, rest) := cs.span (· ≠ '\x7d')
  match d.field? field cs with
  | some found => if field.isEmpty ∨ rest.isEmpty then .error .directive else checkField found
  | none => .error .directive
  match rest with
  | _ :: ']' :: rest => d.checkAfterSpan rest
  | _ => .error .directive

/-- Check a span from behind its opening bracket: a name, and a field in braces if wanted. -/
def Directive.checkSpan (d : Directive) (cs : List Char) : Except FilterError Unit :=
  match cs.dropWhile fun c => c ≠ ']' && c ≠ '\x7b' with
  | ']' :: rest => d.checkAfterSpan rest
  | '\x7b' :: rest => d.checkBraces rest
  | _ => .error .directive

/-- Check a directive. -/
def Directive.check (d : Directive) : Except FilterError Unit :=
  match d.body with
  | [] => .error .directive
  | '[' :: rest => d.checkSpan rest
  | c :: rest =>
    if beginsTarget c then
      match rest.dropWhile fun c => c ≠ '=' && c ≠ '[' with
      | '=' :: level => d.checkLevel level
      | '[' :: rest => d.checkSpan rest
      | _ => .ok ()
    else .error .directive

/-- Check a filter. -/
def check (text : String) : Except FilterError Unit :=
  ((text.splitOn ",").filter (· ≠ "")).forM fun directive => (Directive.ofText directive).check

end LogFilter

end Accrual
