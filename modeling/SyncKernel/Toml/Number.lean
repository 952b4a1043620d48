import SyncKernel.Toml.Lexical

/-!
# Numbers

Whole numbers are limited to 64 bits, and a number with a fraction must not be as great as infinity.
Single underscores may stand between digits.
-/

namespace SyncKernel.Toml

/-- The digits of a run in which single underscores may stand between digits; the run must begin and
end with a digit. -/
def digits? (isDigit : Char → Bool) : List Char → Option (List Char)
  | [] => none
  | [c] => if isDigit c then some [c] else none
  | c :: '_' :: cs =>
    if isDigit c then (digits? isDigit cs).map (c :: ·) else none
  | c :: cs => if isDigit c then (digits? isDigit cs).map (c :: ·) else none

/-- The number that digits in a base stand for. -/
def digitsValue (base : Nat) (digits : List Char) : Nat :=
  digits.foldl (fun n c => base * n + (hexDigit? c).getD 0) 0

/-- A sign in front of a run: whether it is a minus, and the rest. -/
def splitSign : List Char → Bool × List Char
  | '-' :: cs => (true, cs)
  | '+' :: cs => (false, cs)
  | cs => (false, cs)

/-- The digits of an unsigned whole number in base ten: no zero in front of other digits. -/
def decimal? (cs : List Char) : Option (List Char) := do
  let ds ← digits? Char.isDigit cs
  if cs.head? = some '0' ∧ cs ≠ ['0'] then none else some ds

/-- A whole number within 64 bits. -/
def inRange? (n : Int) : Option Int :=
  if -0x8000000000000000 ≤ n ∧ n < 0x8000000000000000 then some n else none

/-- Read a whole number: in base ten with or without a sign, or without one in base sixteen, eight
or two behind a mark. -/
def integer? : List Char → Option Int
  | '0' :: 'x' :: cs => do
    inRange? (digitsValue 16 (← digits? (fun c => (hexDigit? c).isSome) cs))
  | '0' :: 'o' :: cs => do
    inRange? (digitsValue 8 (← digits? (fun c => '0' ≤ c && c ≤ '7') cs))
  | '0' :: 'b' :: cs => do
    inRange? (digitsValue 2 (← digits? (fun c => c == '0' || c == '1') cs))
  | cs => do
    let (negative, cs) := splitSign cs
    let n := digitsValue 10 (← decimal? cs)
    inRange? (if negative then -n else n)

/-- Whether `digits` times ten to the `exponent` is rounded to infinity as a double: whether it is
at least halfway from the greatest double to the next power of two. -/
def isHuge (digits : List Char) (exponent : Int) : Bool :=
  let significant := digits.dropWhile (· == '0')
  let magnitude := significant.length + exponent
  if significant.isEmpty || magnitude < 309 then false
  else if 309 < magnitude then true
  else
    let limit := Nat.pow 2 1024 - Nat.pow 2 970
    let n := digitsValue 10 significant
    if 0 ≤ exponent then limit ≤ n * Nat.pow 10 exponent.toNat
    else limit * Nat.pow 10 (-exponent).toNat ≤ n

/-- Whether a run is a number with a fraction or an exponent, or a named one. A positive number must
not be as great as infinity. -/
def isFloat (cs : List Char) : Bool :=
  let (negative, cs) := splitSign cs
  if cs = "inf".toList ∨ cs = "nan".toList then true
  else
    let isMark (c : Char) := c == 'e' || c == 'E'
    let mantissa := cs.takeWhile fun c => !isMark c
    let power := (cs.dropWhile fun c => !isMark c).drop 1
    let hasPower := cs.any isMark
    let whole := mantissa.takeWhile (· != '.')
    let hasFraction := mantissa.contains '.'
    let fraction := (mantissa.dropWhile (· != '.')).drop 1
    let (powerNegative, powerDigits) := splitSign power
    let parts : Option (List Char × List Char × List Char) := do
      let w ← decimal? whole
      let f ← if hasFraction then digits? Char.isDigit fraction else some []
      let p ← if hasPower then digits? Char.isDigit powerDigits else some []
      return (w, f, p)
    match parts with
    | none => false
    | some (w, f, p) =>
      let size : Int := digitsValue 10 p
      let exponent := (if powerNegative then -size else size) - f.length
      (hasFraction || hasPower) && (negative || !isHuge (w ++ f) exponent)

end SyncKernel.Toml
