/-!
# The words of a TOML document

Readers for blanks, comments, keys and texts. A reader takes the characters that follow and answers
what it read together with the rest, or nothing if they are not what it reads.
-/

namespace SyncKernel.Toml

/-- Whether a character is a space or a tab. -/
def isSpace (c : Char) : Bool := c == ' ' || c == '\t'

/-- Whether a character may stand in a comment: all but control characters, and the tab. -/
def isPlain (c : Char) : Bool :=
  c == '\t' || (32 ≤ c.toNat && c.toNat != 127)

/-- Leave out spaces and tabs. -/
def skipSpace (cs : List Char) : List Char := cs.dropWhile isSpace

/-- Leave out a comment, if there is one. -/
def skipComment : List Char → List Char
  | '#' :: cs => cs.dropWhile isPlain
  | cs => cs

/-- Leave out a line end. -/
def lineFeed? : List Char → Option (List Char)
  | '\n' :: cs => some cs
  | '\r' :: '\n' :: cs => some cs
  | _ => none

/-- Leave out the rest of a line that holds nothing more. -/
def lineEnd? (cs : List Char) : Option (List Char) :=
  match skipComment (skipSpace cs) with
  | [] => some []
  | rest => lineFeed? rest

/-- Leave out blanks, line ends and comments; `inComment` says whether a comment has begun. -/
def skipLines : (inComment : Bool) → List Char → List Char
  | _, '\n' :: cs => skipLines false cs
  | _, '\r' :: '\n' :: cs => skipLines false cs
  | false, '#' :: cs => skipLines true cs
  | false, c :: cs => if isSpace c then skipLines false cs else c :: cs
  | true, c :: cs => if isPlain c then skipLines true cs else c :: cs
  | _, [] => []

/-! ## Texts -/

/-- The value of a hexadecimal digit. -/
def hexDigit? (c : Char) : Option Nat :=
  if '0' ≤ c ∧ c ≤ '9' then some (c.toNat - 48)
  else if 'a' ≤ c ∧ c ≤ 'f' then some (c.toNat - 87)
  else if 'A' ≤ c ∧ c ≤ 'F' then some (c.toNat - 55)
  else none

/-- The character whose code point some hexadecimal digits give, if it is one. -/
def scalar? (digits : List Char) : Option Char := do
  let values ← digits.mapM hexDigit?
  let n := values.foldl (fun n d => 16 * n + d) 0
  if n.isValidChar then some (Char.ofNat n) else none

/-- The character that a letter stands for after a backslash. -/
def escape? : Char → Option Char
  | 'b' => some '\x08'
  | 't' => some '\t'
  | 'n' => some '\n'
  | 'f' => some '\x0c'
  | 'r' => some '\r'
  | '"' => some '"'
  | '\\' => some '\\'
  | _ => none

/-- Read a text in quotes to its closing quote. `done` holds what was read, in reverse. -/
def quotedFrom (done : List Char) : List Char → Option (String × List Char)
  | [] => none
  | '"' :: cs => some (String.ofList done.reverse, cs)
  | '\\' :: 'u' :: a :: b :: c :: d :: cs =>
    match scalar? [a, b, c, d] with
    | some x => quotedFrom (x :: done) cs
    | none => none
  | '\\' :: 'U' :: a :: b :: c :: d :: e :: f :: g :: h :: cs =>
    match scalar? [a, b, c, d, e, f, g, h] with
    | some x => quotedFrom (x :: done) cs
    | none => none
  | '\\' :: c :: cs =>
    match escape? c with
    | some x => quotedFrom (x :: done) cs
    | none => none
  | c :: cs => if isPlain c then quotedFrom (c :: done) cs else none

/-- Read a text in apostrophes to its closing apostrophe; a backslash stands for itself. -/
def literalFrom (done : List Char) : List Char → Option (String × List Char)
  | [] => none
  | '\x27' :: cs => some (String.ofList done.reverse, cs)
  | c :: cs => if isPlain c then literalFrom (c :: done) cs else none

/-- Whether nothing but blanks stands before the next line end. -/
def blankLine (cs : List Char) : Bool :=
  (lineFeed? (skipSpace cs)).isSome

/-- Read a text in three quotes to its closing quotes, before which up to two more quotes may stand.
A backslash at the end of a line leaves out the blanks and line ends that follow; `skipping` says
that this is going on. -/
def longQuotedFrom :
    (skipping : Bool) → (done : List Char) → List Char → Option (String × List Char)
  | _, _, [] => none
  | skipping, done, '\n' :: cs =>
    if skipping then longQuotedFrom true done cs else longQuotedFrom false ('\n' :: done) cs
  | skipping, done, '\r' :: '\n' :: cs =>
    if skipping then longQuotedFrom true done cs else longQuotedFrom false ('\n' :: done) cs
  | _, done, '"' :: '"' :: '"' :: '"' :: '"' :: cs =>
    some (String.ofList ('"' :: '"' :: done).reverse, cs)
  | _, done, '"' :: '"' :: '"' :: '"' :: cs => some (String.ofList ('"' :: done).reverse, cs)
  | _, done, '"' :: '"' :: '"' :: cs => some (String.ofList done.reverse, cs)
  | _, done, '\\' :: 'u' :: a :: b :: c :: d :: cs =>
    match scalar? [a, b, c, d] with
    | some x => longQuotedFrom false (x :: done) cs
    | none => none
  | _, done, '\\' :: 'U' :: a :: b :: c :: d :: e :: f :: g :: h :: cs =>
    match scalar? [a, b, c, d, e, f, g, h] with
    | some x => longQuotedFrom false (x :: done) cs
    | none => none
  | _, done, '\\' :: c :: cs =>
    if blankLine (c :: cs) then longQuotedFrom true done cs
    else match escape? c with
      | some x => longQuotedFrom false (x :: done) cs
      | none => none
  | skipping, done, c :: cs =>
    if skipping && isSpace c then longQuotedFrom true done cs
    else if isPlain c then longQuotedFrom false (c :: done) cs
    else none

/-- Read a text in three apostrophes to its closing apostrophes, before which up to two more may
stand. -/
def longLiteralFrom (done : List Char) : List Char → Option (String × List Char)
  | [] => none
  | '\n' :: cs => longLiteralFrom ('\n' :: done) cs
  | '\r' :: '\n' :: cs => longLiteralFrom ('\n' :: done) cs
  | '\x27' :: '\x27' :: '\x27' :: '\x27' :: '\x27' :: cs =>
    some (String.ofList ('\x27' :: '\x27' :: done).reverse, cs)
  | '\x27' :: '\x27' :: '\x27' :: '\x27' :: cs => some (String.ofList ('\x27' :: done).reverse, cs)
  | '\x27' :: '\x27' :: '\x27' :: cs => some (String.ofList done.reverse, cs)
  | c :: cs => if isPlain c then longLiteralFrom (c :: done) cs else none

/-- Leave out a line end directly behind the opening of a text in three quotes. -/
def skipFirstLine (cs : List Char) : List Char :=
  (lineFeed? cs).getD cs

/-- Read a text of any of the four forms. -/
def text? : List Char → Option (String × List Char)
  | '"' :: '"' :: '"' :: cs => longQuotedFrom false [] (skipFirstLine cs)
  | '"' :: cs => quotedFrom [] cs
  | '\x27' :: '\x27' :: '\x27' :: cs => longLiteralFrom [] (skipFirstLine cs)
  | '\x27' :: cs => literalFrom [] cs
  | _ => none

/-! ## Keys -/

/-- Whether a character may stand in a key without quotes. -/
def isBare (c : Char) : Bool := c.isAlphanum || c == '_' || c == '-'

/-- Read one part of a key. -/
def keyPart? : List Char → Option (String × List Char)
  | '"' :: cs => quotedFrom [] cs
  | '\x27' :: cs => literalFrom [] cs
  | cs =>
    let part := cs.takeWhile isBare
    if part.isEmpty then none else some (String.ofList part, cs.dropWhile isBare)

/-- The greatest number of parts of a key, and the greatest depth of nested values. -/
def depthLimit : Nat := 79

/-- Read up to `fuel` parts of a key, with dots between them and spaces around them. -/
def keyParts? : Nat → List Char → Option (List String × List Char)
  | 0, _ => none
  | fuel + 1, cs => do
    let (part, cs) ← keyPart? (skipSpace cs)
    match skipSpace cs with
    | '.' :: cs => do
      let (parts, cs) ← keyParts? fuel cs
      return (part :: parts, cs)
    | cs => return ([part], cs)

/-- Read a key: the parts before its last one, and its last part. -/
def key? (cs : List Char) : Option ((List String × String) × List Char) := do
  let (parts, cs) ← keyParts? depthLimit cs
  let last ← parts.getLast?
  return ((parts.dropLast, last), cs)

end SyncKernel.Toml
