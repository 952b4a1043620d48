/-!
# Hexadecimal text

Addresses, masks and process ids are shown in base sixteen with lower-case digits.
-/

namespace SyncKernel

/-- The shortest lower-case hexadecimal text of a number, `"0"` for zero. -/
def hexText (n : Nat) : String :=
  String.ofList (Nat.toDigits 16 n)

/-- The hexadecimal text of a number with the mark `0x` in front. -/
def hexMarked (n : Nat) : String :=
  "0x" ++ hexText n

/-- The hexadecimal text of a number, filled up with zeros on the left to at least `width` digits.
-/
def hexPadded (width n : Nat) : String :=
  let digits := Nat.toDigits 16 n
  String.ofList (List.replicate (width - digits.length) '0' ++ digits)

end SyncKernel
