import LazyGraph.Decimal.Shortest

/-!
Decimal text of numbers: positional, and with an exponent outside a range of magnitudes.
-/

namespace LazyGraph.Decimal

def Numeral.positional (n : Numeral) : String :=
  let ds := Nat.toDigits 10 n.digits
  if 0 ≤ n.exponent then
    String.ofList (ds ++ List.replicate n.exponent.toNat '0')
  else
    let places := (-n.exponent).toNat
    if places < ds.length then
      String.ofList (ds.take (ds.length - places) ++ '.' :: ds.drop (ds.length - places))
    else
      String.ofList ('0' :: '.' :: List.replicate (places - ds.length) '0' ++ ds)

def Numeral.order (n : Numeral) : Int :=
  (Nat.toDigits 10 n.digits).length + n.exponent - 1

def Numeral.scientific (n : Numeral) : String :=
  let exponent := "e" ++ toString n.order
  match Nat.toDigits 10 n.digits with
  | [] => exponent
  | [d] => d.toString ++ exponent
  | d :: ds => String.ofList (d :: '.' :: ds) ++ exponent

def signed (negative : Bool) (text : String) : String :=
  if negative then "-" ++ text else text

def Layout.plain (f : Layout) (bits : Nat) : String :=
  match f.read bits with
  | .nan => "NaN"
  | .infinite negative => signed negative "inf"
  | .finite negative 0 _ _ => signed negative "0"
  | .finite negative m q edge => signed negative (shortest m q edge).positional

/-- Recognisable as a floating-point number: a whole number keeps one place, and magnitudes from
`10 ^ 16` up or below `10 ^ (-4)` have an exponent. -/
def Layout.marked (f : Layout) (bits : Nat) : String :=
  match f.read bits with
  | .nan => "NaN"
  | .infinite negative => signed negative "inf"
  | .finite negative 0 _ _ => signed negative "0.0"
  | .finite negative m q edge =>
    let n := shortest m q edge
    if n.order < -4 || 16 ≤ n.order then signed negative n.scientific
    else if 0 ≤ n.exponent then signed negative (n.positional ++ ".0")
    else signed negative n.positional

end LazyGraph.Decimal
