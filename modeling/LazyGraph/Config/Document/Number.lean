import LazyGraph.Config.Document.Text
import LazyGraph.Decimal.Range

/-!
Numbers in documents: integers in four bases, and floating-point numbers.
-/

namespace LazyGraph.Document

open Digit (isHex numeral)

inductive Number
  | integer (i : Int)
  | finite (negative : Bool) (n : Decimal.Numeral)
  | infinite (negative : Bool)
  | nan

def digits (ok : Char → Bool) : List Char → List Char × List Char
  | [] => ([], [])
  | '_' :: d :: rest =>
    if ok d then
      let (ds, rest) := digits ok rest
      (d :: ds, rest)
    else ([], '_' :: d :: rest)
  | c :: rest =>
    if ok c then
      let (ds, rest) := digits ok rest
      (c :: ds, rest)
    else ([], c :: rest)

def digits? (ok : Char → Bool) : List Char → Option (List Char × List Char)
  | c :: rest => if ok c then some (digits ok (c :: rest)) else none
  | [] => none

def whole? (cs : List Char) : Option (List Char × List Char) :=
  match cs with
  | '0' :: '_' :: _ => none
  | '0' :: c :: rest => if c.isDigit then none else some (['0'], c :: rest)
  | cs => digits? Char.isDigit cs

def inRange (i : Int) : Option Number :=
  if Int64.minValue.toInt ≤ i && i ≤ Int64.maxValue.toInt then some (.integer i) else none

def inBase? (base : Nat) (ok : Char → Bool) (cs : List Char) : Option (Number × List Char) := do
  let (ds, rest) ← digits? ok cs
  let number ← inRange (numeral base ds)
  return (number, rest)

def fraction? : List Char → Option (List Char × List Char)
  | '.' :: rest => digits? Char.isDigit rest
  | rest => some ([], rest)

def exponent? (cs : List Char) : Option (Int × List Char) :=
  let read (sign : Int) (cs : List Char) : Option (Int × List Char) :=
    (digits? Char.isDigit cs).map fun (ds, rest) => (sign * numeral 10 ds, rest)
  match cs with
  | c :: rest =>
    if c == 'e' || c == 'E' then
      match rest with
      | '+' :: rest => read 1 rest
      | '-' :: rest => read (-1) rest
      | rest => read 1 rest
    else some (0, c :: rest)
  | [] => some (0, [])

def goesOn : List Char → Bool
  | '.' :: _ | 'e' :: _ | 'E' :: _ => true
  | _ => false

def unsigned? (negative : Bool) (cs : List Char) : Option (Number × List Char) :=
  match cs with
  | 'i' :: 'n' :: 'f' :: rest => some (.infinite negative, rest)
  | 'n' :: 'a' :: 'n' :: rest => some (.nan, rest)
  | cs => do
    let (whole, rest) ← whole? cs
    if goesOn rest then
      let (fraction, rest) ← fraction? rest
      let (exponent, rest) ← exponent? rest
      let n : Decimal.Numeral :=
        ⟨numeral 10 (whole ++ fraction), exponent - fraction.length⟩
      if !negative && n.overflows Decimal.double then none
      else return (.finite negative n, rest)
    else
      let i : Int := numeral 10 whole
      let number ← inRange (if negative then -i else i)
      return (number, rest)

def number? : List Char → Option (Number × List Char)
  | '+' :: rest => unsigned? false rest
  | '-' :: rest => unsigned? true rest
  | '0' :: 'x' :: rest => inBase? 16 isHex rest
  | '0' :: 'o' :: rest => inBase? 8 (fun c => '0' ≤ c && c ≤ '7') rest
  | '0' :: 'b' :: rest => inBase? 2 (fun c => c == '0' || c == '1') rest
  | cs => unsigned? false cs

end LazyGraph.Document
