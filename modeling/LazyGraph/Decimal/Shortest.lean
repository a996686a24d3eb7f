/-!
The shortest decimal that reads back as a given binary floating-point number.

A finite number is `m * 2 ^ q`. The decimals that round to it form an interval around it; the
shortest one is found by testing, from coarse to fine, the two neighbours of the number on the grid
of multiples of a power of ten.
-/

namespace LazyGraph.Decimal

structure Layout where
  significand : Nat
  exponent : Nat

def single : Layout := ⟨23, 8⟩

def double : Layout := ⟨52, 11⟩

/-- What a bit pattern stands for. `edge` marks the least significand of its binade, where the
numbers below are twice as dense as those above. -/
inductive Reading
  | nan
  | infinite (negative : Bool)
  | finite (negative : Bool) (m : Nat) (q : Int) (edge : Bool)
  deriving DecidableEq

def Layout.read (f : Layout) (bits : Nat) : Reading :=
  let hidden := Nat.pow 2 f.significand
  let exponents := Nat.pow 2 f.exponent
  let fraction := bits % hidden
  let biased := bits / hidden % exponents
  let negative := bits / hidden / exponents % 2 == 1
  let offset : Int := exponents / 2 - 1 + f.significand
  if biased = exponents - 1 then
    if fraction = 0 then .infinite negative else .nan
  else if biased = 0 then
    .finite negative fraction (1 - offset) false
  else
    .finite negative (hidden + fraction) (biased - offset) (fraction == 0 && 1 < biased)

structure Numeral where
  digits : Nat
  exponent : Int
  deriving DecidableEq

/-- A positive number `value * 2 ^ scale` with the interval of reals that round to it. -/
structure Rounded where
  low : Nat
  value : Nat
  high : Nat
  scale : Int
  closed : Bool

def Rounded.of (m : Nat) (q : Int) (edge : Bool) : Rounded :=
  ⟨if edge then 4 * m - 1 else 4 * m - 2, 4 * m, 4 * m + 2, q - 2, m % 2 == 0⟩

/-- With `unit`, the scale of the grid of multiples of `10 ^ k`: a number `n * 2 ^ scale` lies at
`n * fine / unit` on it. -/
def Rounded.fine (r : Rounded) (k : Int) : Nat :=
  Nat.pow 2 r.scale.toNat * Nat.pow 10 (-k).toNat

def Rounded.unit (r : Rounded) (k : Int) : Nat :=
  Nat.pow 10 k.toNat * Nat.pow 2 (-r.scale).toNat

/-- The numeral on the grid of multiples of `10 ^ k` that lies in the interval, the nearer one if
there are two, the upper one at a tie. -/
def Rounded.onGrid? (r : Rounded) (k : Int) : Option Numeral :=
  let fine := r.fine k
  let unit := r.unit k
  let inside (d : Nat) : Bool :=
    if r.closed then r.low * fine ≤ d * unit && d * unit ≤ r.high * fine
    else r.low * fine < d * unit && d * unit < r.high * fine
  let below := r.value * fine / unit
  let nearUp : Bool := unit ≤ 2 * (r.value * fine % unit)
  match inside below, inside (below + 1) with
  | true, true => some ⟨if nearUp then below + 1 else below, k⟩
  | true, false => some ⟨below, k⟩
  | false, true => some ⟨below + 1, k⟩
  | false, false => none

def Rounded.search (r : Rounded) : Nat → Int → Numeral
  | 0, k => ⟨r.value * r.fine k / r.unit k, k⟩
  | fuel + 1, k => (r.onGrid? k).getD (r.search fuel (k - 1))

/-- A power of ten above the number: a number below `2 ^ b` is below `10 ^ (b * 0.30103)`. -/
def Rounded.magnitude (r : Rounded) : Int :=
  (Nat.log2 r.value + 1 + r.scale) * 30103 / 100000 + 1

/-- The fewest digits that read back. Seventeen places reach below every gap between doubles. -/
def shortest (m : Nat) (q : Int) (edge : Bool) : Numeral :=
  let r := Rounded.of m q edge
  r.search 24 r.magnitude

end LazyGraph.Decimal
