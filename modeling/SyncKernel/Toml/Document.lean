import SyncKernel.Toml.Word

/-!
# TOML documents

A document is a list of lines: assignments of a value to a key, headers that say to which table the
assignments that follow belong, and blank lines. `readDocument?` answers the entries of a
well-formed document and nothing for any other text. A key must not be given twice, and a table must
not be opened twice.
-/

namespace SyncKernel.Toml

mutual

/-- Read a value below `depth` others. -/
def value? : (fuel depth : Nat) → List Char → Option (Value × List Char)
  | 0, _, _ => none
  | fuel + 1, depth, cs =>
    match cs with
    | '[' :: cs => if depth < depthLimit then items? fuel (depth + 1) [] cs else none
    | '\x7b' :: cs =>
      if depthLimit ≤ depth then none
      else match skipSpace cs with
        | '\x7d' :: cs => some (.table .closed [], cs)
        | cs => pairs? fuel (depth + 1) [] cs
    | '"' :: _ => (text? cs).map fun (s, cs) => (.string s, cs)
    | '\x27' :: _ => (text? cs).map fun (s, cs) => (.string s, cs)
    | _ => word? cs

/-- Read the values of a list to its closing bracket. `done` holds those that were read, in reverse.
-/
def items? : (fuel depth : Nat) → (done : List Value) → List Char → Option (Value × List Char)
  | 0, _, _, _ => none
  | fuel + 1, depth, done, cs =>
    match skipLines false cs with
    | ']' :: cs => some (.array done.reverse, cs)
    | cs => do
      let (value, cs) ← value? fuel depth cs
      match skipLines false cs with
      | ',' :: cs => items? fuel depth (value :: done) cs
      | ']' :: cs => some (.array (value :: done).reverse, cs)
      | _ => none

/-- Read the assignments of a table in braces to its closing brace. `done` holds the entries so far.
-/
def pairs? : (fuel depth : Nat) → (done : Entries) → List Char → Option (Value × List Char)
  | 0, _, _, _ => none
  | fuel + 1, depth, done, cs => do
    let ((path, key), cs) ← key? cs
    match cs with
    | '=' :: cs => do
      let (value, cs) ← value? fuel depth (skipSpace cs)
      let done ← done.addAt? path key value
      match skipSpace cs with
      | ',' :: cs => pairs? fuel depth done cs
      | '\x7d' :: cs => some (.table .closed done, cs)
      | _ => none
    | _ => none

end

/-- Where the assignments of a document go. -/
inductive Place where
  /-- Into the document itself, before the first header. -/
  | root
  /-- Into the table of a header. -/
  | table (path : List String) (key : String)
  /-- Into the last table of a header in double brackets. -/
  | lastTable (path : List String) (key : String)

/-- A document that is being read. -/
structure Draft where
  /-- The tables that are finished. -/
  root : Entries := []
  /-- Where the table at hand belongs. -/
  place : Place := .root
  /-- The entries of the table at hand. -/
  current : Entries := []

namespace Draft

/-- The entries with the table at hand put where it belongs. -/
def finish (d : Draft) : Option Entries :=
  match d.place with
  | .root => some d.current
  | .table path key =>
    Entries.atHeader (·.add? key (.table .header d.current)) path d.root
  | .lastTable path key =>
    Entries.atHeader (fun inner =>
      match inner.find? key with
      | none => some (inner.replace key (.tables [.table .header d.current]))
      | some (.tables items) =>
        some (inner.replace key (.tables (items ++ [.table .header d.current])))
      | some _ => none) path d.root

/-- Go on with the table of a header. A table that stood only in the paths of headers keeps its
entries; any other use of the key is an error. -/
def openTable (d : Draft) (path : List String) (key : String) : Option Draft := do
  let root ← d.finish
  let taken ← Entries.atHeader some path root
  let before := findAt path taken
  match before.find? key with
  | none => return ⟨taken, .table path key, []⟩
  | some (.table .implied inner) =>
    let root ← Entries.atHeader (fun es => some (es.filter fun e => e.1 != key)) path taken
    return ⟨root, .table path key, inner⟩
  | some _ => none
where
  /-- The entries of the table at the path of a header. -/
  findAt : List String → Entries → Entries
    | [], entries => entries
    | key :: path, entries =>
      match entries.find? key with
      | some (.table _ inner) => findAt path inner
      | some (.tables items) =>
        match items.getLast? with
        | some (.table _ inner) => findAt path inner
        | _ => []
      | _ => []

/-- Go on with another table of a header in double brackets. -/
def openLastTable (d : Draft) (path : List String) (key : String) : Option Draft := do
  let root ← d.finish
  let root ← Entries.atHeader (fun inner =>
    match inner.find? key with
    | none => some inner
    | some (.tables _) => some inner
    | some _ => none) path root
  return ⟨root, .lastTable path key, []⟩

end Draft

/-- Read one line that is not blank: a header or an assignment. -/
def readLine (fuel : Nat) (d : Draft) : List Char → Option (Draft × List Char)
  | '[' :: '[' :: cs => do
    let ((path, key), cs) ← key? cs
    match cs with
    | ']' :: ']' :: cs => return (← d.openLastTable path key, ← lineEnd? cs)
    | _ => none
  | '[' :: cs => do
    let ((path, key), cs) ← key? cs
    match cs with
    | ']' :: cs => return (← d.openTable path key, ← lineEnd? cs)
    | _ => none
  | cs => do
    let ((path, key), cs) ← key? cs
    match cs with
    | '=' :: cs => do
      let (value, cs) ← value? fuel 0 (skipSpace cs)
      let rest ← lineEnd? cs
      let current ← d.current.addAt? path key value
      return ({ d with current }, rest)
    | _ => none

/-- Read up to `fuel` lines. -/
def readLines (fuel : Nat) : Nat → Draft → List Char → Option Draft
  | 0, _, _ => none
  | lines + 1, d, cs =>
    match skipSpace cs with
    | [] => some d
    | '\n' :: cs => readLines fuel lines d cs
    | '\r' :: '\n' :: cs => readLines fuel lines d cs
    | '#' :: cs => do readLines fuel lines d (← lineEnd? ('#' :: cs))
    | cs => do
      let (d, rest) ← readLine fuel d cs
      readLines fuel lines d rest

/-- Read a document. A byte order mark in front is left out. -/
def readDocument? (cs : List Char) : Option Entries := do
  let cs := match cs with
    | '\ufeff' :: rest => rest
    | cs => cs
  let fuel := 2 * cs.length + 2
  let d ← readLines fuel fuel {} cs
  d.finish

end SyncKernel.Toml
