/-!
# Shortest decimals

The decimal with the fewest digits that reads back as a given floating-point number.

A positive finite floating-point number is `m * 2 ^ q` for whole numbers `m` and `q`. The reals that
are rounded to it form an interval around it, which contains its ends exactly when `m` is even. For
one digit, two digits and so on, the two decimals of that many digits next to the number are tried;
the first one inside the interval is the shortest, and of two inside it the nearer one is taken, the
larger one if they are equally near. All arithmetic is exact.
-/

namespace ExprCheck

/-- A positive decimal: `0.d₁d₂…dₙ * 10 ^ exponent`, where `d₁` is not zero. -/
structure Decimal where
  /-- The digits. -/
  digits : List Char
  /-- The exponent. -/
  exponent : Int
deriving DecidableEq, Repr

namespace Decimal

/-- A positive finite floating-point number `m * 2 ^ q`. -/
structure Binary where
  /-- The whole number. -/
  m : Nat
  /-- The exponent of two. -/
  q : Int
  /-- Whether the next smaller floating-point number is only half as far away as the next larger
  one. -/
  narrow : Bool
deriving DecidableEq, Repr

namespace Binary

/-- The number with the given magnitude bits, unless it is zero. The bits of infinity and of what is
no number must not be given. -/
def ofBits (bits : Nat) : Option Binary :=
  let fraction : Nat := bits % Nat.pow 2 52
  let exponent : Nat := bits / Nat.pow 2 52
  if exponent = 0 then
    if fraction = 0 then none else some ⟨fraction, -1074, false⟩
  else
    some ⟨Nat.pow 2 52 + fraction, (exponent : Int) - 1075, fraction = 0 && 1 < exponent⟩

/-- A fraction `numerator / denominator` that equals `4 * b`; with it, `unit / denominator` equals
`2 ^ b.q`. -/
def scaled (b : Binary) : Nat × Nat × Nat :=
  let unit := Nat.pow 2 b.q.toNat
  (4 * b.m * unit, unit, Nat.pow 2 (-b.q).toNat)

end Binary

/-- The number of decimal digits of a whole number. -/
def digitCount (n : Nat) : Nat := (Nat.toDigits 10 n).length

/-- The exponent `k` with `10 ^ (k - 1) ≤ x < 10 ^ k`, where `x` is `a / b` and neither `a` nor `b`
is zero. -/
def magnitude (a b : Nat) : Int :=
  if b ≤ a then digitCount (a / b)
  else 1 - (digitCount ((b + a - 1) / a - 1) : Int)

/-- Four times the interval of a number, by the numerators of its ends over a common denominator. -/
structure Interval where
  /-- The lower end. -/
  low : Nat
  /-- The number itself. -/
  mid : Nat
  /-- The upper end. -/
  high : Nat
  /-- The denominator. -/
  den : Nat
  /-- Whether the ends belong to the interval. -/
  closed : Bool

/-- The interval of a number. -/
def Interval.of (b : Binary) : Interval :=
  let (mid, unit, den) := b.scaled
  let below := if b.narrow then unit else 2 * unit
  ⟨mid - below, mid, mid + 2 * unit, den, b.m % 2 = 0⟩

/-- Whether four times `n * 10 ^ p` lies in the interval, by its numerator `x` over the same
denominator. -/
def Interval.holds (i : Interval) (x : Nat) : Bool :=
  if i.closed then i.low ≤ x && x ≤ i.high else i.low < x && x < i.high

/-- The decimal of `n` digits that lies in the interval, if there is one; of two, the nearer. -/
def candidate? (i : Interval) (k : Int) (n : Nat) : Option Nat :=
  let p := k - n
  -- The grid has the step `10 ^ p`; everything is multiplied by `10 ^ (-p)` if `p` is negative.
  let up := Nat.pow 10 (-p).toNat
  let step := 4 * Nat.pow 10 p.toNat * i.den
  let i := { i with low := i.low * up, mid := i.mid * up, high := i.high * up }
  let floor := i.mid / step
  let lower := floor * step
  let upper := lower + step
  match i.holds lower, i.holds upper with
  | true, true => if i.mid - lower < upper - i.mid then some floor else some (floor + 1)
  | true, false => some floor
  | false, true => some (floor + 1)
  | false, false => none

/-- The shortest decimal, trying `n` digits and then up to `tries` more. -/
def search (i : Interval) (k : Int) : Nat → Nat → Nat
  | 0, _ => 0
  | tries + 1, n =>
    match candidate? i k n with
    | some d => d * Nat.pow 10 (17 - n)
    | none => search i k tries (n + 1)

/-- The digits without the zeros at their end. -/
def trimZeros (digits : List Char) : List Char :=
  (digits.reverse.dropWhile (· = '0')).reverse

/-- The shortest decimal of a number. Seventeen digits are always enough. -/
def shortest (b : Binary) : Decimal :=
  let i := Interval.of b
  let k := magnitude i.mid (4 * i.den)
  let digits := Nat.toDigits 10 (search i k 17 1)
  ⟨trimZeros digits, k + (digits.length - 17 : Int)⟩

end Decimal

end ExprCheck
