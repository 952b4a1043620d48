import SyncKernel.Toml.Datetime
import SyncKernel.Toml.Value

/-!
# Values of one word

A value that is neither a text nor a list nor a table is one run of letters, digits and signs. It is
read as a whole: as a truth value, a whole number, a number with a fraction, or a date or time.
-/

namespace SyncKernel.Toml

/-- Whether a character may stand in a number or a date. -/
def isWordChar (c : Char) : Bool :=
  c.isAlphanum || c == '+' || c == '-' || c == '_' || c == '.' || c == ':'

/-- Read a value that is one run of characters. A time may follow a date behind a single space. -/
def word? (cs : List Char) : Option (Value × List Char) :=
  let word := cs.takeWhile isWordChar
  let rest := cs.dropWhile isWordChar
  if word = "true".toList then some (.boolean true, rest)
  else if word = "false".toList then some (.boolean false, rest)
  else if isDatetime word then
    match isDate word, rest with
    | true, ' ' :: more =>
      let time := more.takeWhile isWordChar
      if isTimeOffset time then
        some (.datetime (String.ofList (word ++ ' ' :: time)), more.dropWhile isWordChar)
      else some (.datetime (String.ofList word), rest)
    | _, _ => some (.datetime (String.ofList word), rest)
  else if isFloat word then some (.float (String.ofList word), rest)
  else (integer? word).map fun n => (.integer n, rest)

end SyncKernel.Toml
