import Mathlib.Data.List.Basic

namespace Ccp.Lib.Strconv

-- The sign and what follows it.
def signed : List Char → Bool × List Char
  | '-' :: rest => (true, rest)
  | '+' :: rest => (false, rest)
  | rest => (false, rest)

-- strconv.Atoi: decimal digits after an optional sign, within 64 bits.
def atoi (s : List Char) : Option Int :=
  let (neg, digits) := signed s
  if digits = [] ∨ digits.any (!·.isDigit) then none
  else
    let n := Nat.ofDigitChars 10 digits 0
    if neg then if n ≤ 9223372036854775808 then some (-(n : Int)) else none
    else if n < 9223372036854775808 then some n else none

example : atoi "+007".toList = some 7 ∧ atoi "-1".toList = some (-1) ∧ atoi "1_0".toList = none ∧
    atoi "9223372036854775808".toList = none := by decide

end Ccp.Lib.Strconv
