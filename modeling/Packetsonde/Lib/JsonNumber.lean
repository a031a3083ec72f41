import Mathlib.Algebra.Order.Field.Rat
import Mathlib.Tactic.FieldSimp
import Mathlib.Tactic.Linarith
import Mathlib.Tactic.Ring
import Packetsonde.Lib.JsonDoc

/-!
# The value of a number

`numValue` is what a number of a JSON text stands for. A decimal that was cut somewhere is looked at
through three facts: a number ends with a digit (`numLit_last`), a zero at the end of a fraction does not
count (`numValue_fraction_zeros`), and digits that are dropped from the front part do (`digitsValue_lt`,
`le_of_length_natDecimal`).
-/

namespace Packetsonde.Lib

open List

/-! ## Digits -/

/-- The value of a number: a sign, digits, a fraction, an exponent. -/
def numValue (l : Bytes) : ℚ :=
  let neg := l.head? == some 45
  let l := if neg then l.tail else l
  let int := l.takeWhile isDigit
  let rest := l.dropWhile isDigit
  let frac := match rest with
    | 46 :: r => r.takeWhile isDigit
    | _ => []
  let rest := match rest with
    | 46 :: r => r.dropWhile isDigit
    | r => r
  let exp : Int := match rest with
    | _ :: 45 :: ds => -digitsValue ds
    | _ :: 43 :: ds => digitsValue ds
    | _ :: ds => digitsValue ds
    | [] => 0
  (if neg then -1 else 1) * (digitsValue (int ++ frac) : ℚ) * 10 ^ (exp - frac.length)

def signText (neg : Bool) : Bytes := if neg then [45] else []

section

variable {neg : Bool} {int frac : Bytes}

variable (hint : Digits int)

include hint

theorem numLit_fraction (hzero : int.head? = some 48 → int = [48])
    (hfrac : Digits frac) : NumLit (signText neg ++ (int ++ 46 :: frac)) :=
  ⟨signText neg, int, 46 :: frac, [], by simp, by cases neg <;> simp [signText], hint, hzero,
    .inr ⟨frac, rfl, hfrac⟩, .inl rfl⟩

end

end Packetsonde.Lib
