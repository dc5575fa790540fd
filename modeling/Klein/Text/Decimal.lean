import Klein.Text.Blank
import Klein.Text.Word

namespace Klein.Text

/-- The number of digits above which a numeral is not read. -/
def maxNumeralDigits : Nat := 4300

/-- The digits of a numeral. A single underscore may stand between two of them. -/
def numeralDigits? : List Char → Option (List Nat)
  | [] => none
  | [c] => (decimalDigit? c).map fun d => [d]
  | c :: '_' :: cs => do return (← decimalDigit? c) :: (← numeralDigits? cs)
  | c :: cs => do return (← decimalDigit? c) :: (← numeralDigits? cs)

/-- The number written by digits, the most significant first. -/
def ofDigits (digits : List Nat) : Nat :=
  digits.foldl (fun n d => 10 * n + d) 0

/-- Blank around a numeral. The four ASCII separators are no blanks here. -/
def isNumeralBlank (c : Char) : Bool :=
  isBlank c && !(decide (0x1c ≤ c.toNat) && decide (c.toNat ≤ 0x1f))

/-- The integer that a text writes in decimal notation: digits with a sign before them or none,
    and blanks around them. -/
def readInteger? (text : String) : Option Int := do
  let body := ((text.toList.dropWhile isNumeralBlank).reverse.dropWhile isNumeralBlank).reverse
  let (negative, digits) := match body with
    | '-' :: cs => (true, cs)
    | '+' :: cs => (false, cs)
    | cs => (false, cs)
  let digits ← numeralDigits? digits
  guard (digits.length ≤ maxNumeralDigits)
  return if negative then -(ofDigits digits : Int) else ofDigits digits

end Klein.Text
