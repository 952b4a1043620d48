import SyncKernel.Text.Blank
import SyncKernel.Toml.Resolve

/-!
# Configuration sources

A configuration gives values to keys in sections. It is written either as a TOML document, which is
recognised by a line that holds a header, or as lines `section_key=value` of a menu program. Of
several lines for one key the last one counts. `Source.get?` answers the value of a key.
-/

namespace SyncKernel.Configuration

/-- A value that a setting can have. -/
inductive Scalar where
  /-- A text. -/
  | text (s : String)
  /-- A whole number. -/
  | number (n : Int)
  /-- A truth value. -/
  | flag (b : Bool)
deriving DecidableEq, Repr

/-- A line that gives a value to a key. -/
structure Assignment where
  /-- The section: what stands before the first underscore. -/
  group : String
  /-- The key: what stands between that underscore and the equals sign. -/
  key : String
  /-- The value. -/
  value : Scalar
deriving DecidableEq

/-- Read a whole number within 64 bits: digits with or without a sign. -/
def number? (cs : List Char) : Option Int :=
  let (negative, digits) := Toml.splitSign cs
  if digits.isEmpty || !digits.all Char.isDigit then none
  else
    let n : Int := Toml.digitsValue 10 digits
    Toml.inRange? (if negative then -n else n)

/-- The value that a text without blanks at its ends stands for: a truth value, a whole number, or
the text itself without quotes at its ends. -/
def scalarOf (cs : List Char) : Scalar :=
  if cs = "true".toList then .flag true
  else if cs = "false".toList then .flag false
  else match number? cs with
    | some n => .number n
    | none => .text (String.ofList (trimBy (· == '"') cs))

/-- Split a list of characters at the first one that is `c`. -/
def splitFirst (c : Char) (cs : List Char) : Option (List Char × List Char) :=
  if cs.contains c then some (cs.takeWhile (· != c), (cs.dropWhile (· != c)).drop 1) else none

/-- The assignment in a line, if there is one. Blank lines, lines that begin with a hash sign, and
lines without an equals sign or without an underscore before it are left out. -/
def assignmentOf? (line : List Char) : Option Assignment :=
  match trimBlanks line with
  | [] => none
  | '#' :: _ => none
  | cs => do
    let (name, value) ← splitFirst '=' cs
    let (group, key) ← splitFirst '_' name
    return ⟨String.ofList group, String.ofList key, scalarOf (trimBlanks value)⟩

/-- A configuration that was read. -/
inductive Source where
  /-- A TOML document. -/
  | document (root : Toml.Value)
  /-- Lines that give values to keys, in order. -/
  | assignments (lines : List Assignment)

namespace Source

/-- Whether a line holds a header and nothing else. -/
def isHeader (line : List Char) : Bool :=
  let cs := trimBlanks line
  cs.head? == some '[' && cs.getLast? == some ']'

/-- Read a configuration. Only a TOML document can be malformed. -/
def read? (cs : List Char) : Option Source :=
  let lines := textLines cs
  if lines.any isHeader then (Toml.read? cs).map .document
  else some (.assignments (lines.filterMap assignmentOf?))

/-- The value of a TOML document that a setting can have. -/
def scalar? : Toml.Value → Option Scalar
  | .string s => some (.text s)
  | .integer n => some (.number n)
  | .boolean b => some (.flag b)
  | _ => none

/-- The value of a key in a section. -/
def get? (source : Source) (group key : String) : Option Scalar :=
  match source with
  | .document root => do scalar? (← (← root.get? group).get? key)
  | .assignments lines =>
    (lines.reverse.find? fun a => a.group == group && a.key == key).map (·.value)

/-- The text of a key, or a default if it has no value or another kind of value. -/
def text (source : Source) (group key default : String) : String :=
  match source.get? group key with
  | some (.text s) => s
  | _ => default

/-- The number of a key, or a default. -/
def number (source : Source) (group key : String) (default : Int) : Int :=
  match source.get? group key with
  | some (.number n) => n
  | _ => default

/-- The truth value of a key, or a default. -/
def flag (source : Source) (group key : String) (default : Bool) : Bool :=
  match source.get? group key with
  | some (.flag b) => b
  | _ => default

end Source

end SyncKernel.Configuration
