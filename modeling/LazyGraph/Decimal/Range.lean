import LazyGraph.Decimal.Notation

/-!
The range of a binary floating-point format.
-/

namespace LazyGraph.Decimal

def Layout.ceiling (f : Layout) : Nat :=
  (Nat.pow 2 (f.significand + 2) - 1) *
    Nat.pow 2 (Nat.pow 2 (f.exponent - 1) - 2 - f.significand)

/-- Whether a decimal rounds to infinity. Only a decimal with as many digits before the point as the
ceiling has to be compared with it. -/
def Numeral.overflows (n : Numeral) (f : Layout) : Bool :=
  let places : Int := (Nat.toDigits 10 f.ceiling).length
  if n.digits = 0 then false
  else if n.order + 1 = places then
    f.ceiling * Nat.pow 10 (-n.exponent).toNat ≤ n.digits * Nat.pow 10 n.exponent.toNat
  else places < n.order + 1

end LazyGraph.Decimal
