import SyncKernel.Toml.Document

/-!
# What a document says

A date can be written in two ways: by itself, or as a table in which a reserved key comes first and
has a text that spells the date. `Value.resolve?` puts dates in the place of such tables, and
`read?` reads a document and resolves it.
-/

namespace SyncKernel.Toml

/-- The key that makes a table a date if it comes first. -/
def datetimeKey : String := "$__toml_private_datetime"

namespace Value

mutual

/-- The value that a written value stands for. A table whose first key is the reserved one is the
date that the value of this key spells, whatever else is in the table; it stands for nothing if that
value is not a text that spells a date. -/
def resolve? : Value → Option Value
  | array items => (resolveList? items).map array
  | tables items => (resolveList? items).map tables
  | table kind ((key, value) :: entries) =>
    if key = datetimeKey then
      match value with
      | string text => if isDatetime text.toList then some (datetime text) else none
      | _ => none
    else do
      let first ← resolve? value
      let rest ← resolveEntries? entries
      return table kind ((key, first) :: rest)
  | value => some value

/-- The values that the values of a list stand for. -/
def resolveList? : List Value → Option (List Value)
  | [] => some []
  | value :: values => do
    let first ← resolve? value
    let rest ← resolveList? values
    return first :: rest

/-- The entries of a table with the values that their values stand for. -/
def resolveEntries? : List (String × Value) → Option (List (String × Value))
  | [] => some []
  | (key, value) :: entries => do
    let first ← resolve? value
    let rest ← resolveEntries? entries
    return (key, first) :: rest

end

/-- The value of a key in a table; other values have no keys. -/
def get? : Value → String → Option Value
  | table _ entries, key => entries.lookup key
  | _, _ => none

end Value

/-- Read a document as a table. -/
def read? (cs : List Char) : Option Value := do
  let entries ← readDocument? cs
  (Value.table .header entries).resolve?

end SyncKernel.Toml
