/-!
# Values of a TOML document

A document is a table. A table remembers how it came about, since that decides what may still be
added to it: a table that a header opened, one that stands only in the path of a header, one that a
dotted key opened, and one written in braces, which is complete. Numbers with a fraction and dates
are kept as they are written.
-/

namespace SyncKernel.Toml

/-- How a table came about. -/
inductive TableKind where
  /-- A header opened it. -/
  | header
  /-- It stands in the path of a header. -/
  | implied
  /-- A dotted key opened it. -/
  | dotted
  /-- It was written in braces. -/
  | closed
deriving DecidableEq, Repr

/-- A value. -/
inductive Value where
  /-- A text. -/
  | string (text : String)
  /-- A whole number. -/
  | integer (number : Int)
  /-- A truth value. -/
  | boolean (value : Bool)
  /-- A number with a fraction or an exponent, or one that is infinite or undefined. -/
  | float (literal : String)
  /-- A date, a time, or both. -/
  | datetime (literal : String)
  /-- A list written in brackets. -/
  | array (items : List Value)
  /-- The tables of headers in double brackets. -/
  | tables (items : List Value)
  /-- A table, its entries in the order of their keys' first use. -/
  | table (kind : TableKind) (entries : List (String × Value))

/-- The entries of a table. -/
abbrev Entries := List (String × Value)

namespace Entries

/-- The value of a key. -/
def find? (entries : Entries) (key : String) : Option Value :=
  entries.lookup key

/-- The entries with the value of a key replaced, or put behind the others. -/
def replace (entries : Entries) (key : String) (value : Value) : Entries :=
  if entries.any fun e => e.1 == key then
    entries.map fun e => if e.1 == key then (key, value) else e
  else entries ++ [(key, value)]

/-- Add a key that is not there yet. -/
def add? (entries : Entries) (key : String) (value : Value) : Option Entries :=
  if entries.any fun e => e.1 == key then none else some (entries ++ [(key, value)])

/-- Change the entries of the table at the path of a header. Tables on the way that are missing are
opened; of tables in double brackets the last one is meant. -/
def atHeader (change : Entries → Option Entries) : List String → Entries → Option Entries
  | [], entries => change entries
  | key :: path, entries =>
    match entries.find? key with
    | none => do
      let inner ← atHeader change path []
      return entries.replace key (.table .implied inner)
    | some (.table kind inner) =>
      if kind = .closed then none
      else do
        let inner ← atHeader change path inner
        return entries.replace key (.table kind inner)
    | some (.tables items) =>
      match items.getLast? with
      | some (.table kind inner) => do
        let inner ← atHeader change path inner
        return entries.replace key (.tables (items.dropLast ++ [.table kind inner]))
      | _ => none
    | some _ => none

/-- Change the entries of the table at the path of a dotted key, below a table of the given kind.
Tables that are missing are opened; a table that a header opened is not entered, and the last one
must have been opened by a dotted key. -/
def atDotted (change : Entries → Option Entries) :
    TableKind → List String → Entries → Option Entries
  | kind, [], entries => if kind = .dotted then change entries else none
  | _, key :: path, entries =>
    match entries.find? key with
    | none => do
      let inner ← atDotted change .dotted path []
      return entries.replace key (.table .dotted inner)
    | some (.table kind inner) =>
      if kind = .closed ∨ kind = .header then none
      else do
        let inner ← atDotted change kind path inner
        return entries.replace key (.table kind inner)
    | some (.tables items) =>
      match items.getLast? with
      | some (.table kind inner) => do
        let inner ← atDotted change kind path inner
        return entries.replace key (.tables (items.dropLast ++ [.table kind inner]))
      | _ => none
    | some _ => none

/-- Add the value of a possibly dotted key. -/
def addAt? (entries : Entries) (path : List String) (key : String) (value : Value) :
    Option Entries :=
  if path.isEmpty then entries.add? key value
  else atDotted (·.add? key value) .header path entries

end Entries

end SyncKernel.Toml
