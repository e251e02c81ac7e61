import HandlerChain.Number.Binary

/-!
# Decimal text of binary numbers

A binary number is written with the fewest digits that read back as it, and of
these the nearest. The first digit decides the layout: from the fifth place after
the point up to the sixteenth before it a number is written positionally, and
otherwise with an exponent.
-/

namespace HandlerChain.Number

/-- The number `coefficient * 10 ^ exponent`. -/
structure Decimal where
  coefficient : Nat
  exponent : Int
deriving DecidableEq, Repr

/-- A decimal as a quotient of natural numbers. -/
def Decimal.quotient (d : Decimal) : Nat × Nat :=
  (d.coefficient * Nat.pow 10 d.exponent.toNat, Nat.pow 10 (-d.exponent).toNat)

namespace Binary

/-- The ends of the interval of numbers that are rounded to `x`, in quarters of
the unit of its last bit. The number below a power of two is only half as far away
as the one above, unless the exponent is the least there is. -/
def interval (x : Binary) : Nat × Nat :=
  let below := if x.significand = Nat.pow 2 52 ∧ -1074 < x.exponent then 1 else 2
  (4 * x.significand - below, 4 * x.significand + 2)

/-- Whether `d` is rounded to `x`. The ends of the interval are where the significand
is even. -/
def readsBack (x : Binary) (d : Decimal) : Bool :=
  let (num, den) := d.quotient
  let (n, m) := shift (4 * num) den (-x.exponent)
  let (low, high) := x.interval
  if x.significand % 2 = 0 then low * m ≤ n && n ≤ high * m
  else low * m < n && n < high * m

/-- How many digits stand before the point, negative if zeros follow it. No number
but zero is so small that its first digit comes after the 400th place. -/
def magnitude (x : Binary) : Int :=
  let (n, d) := x.quotient
  ((toString (n * Nat.pow 10 400 / d)).length : Int) - 400

/-- Of the two neighbours of `x` that are multiples of `10 ^ e`, one that reads back
as `x`, the nearer one if both do. -/
def onGrid? (x : Binary) (e : Int) : Option Decimal :=
  let (n, d) := x.quotient
  let num := n * Nat.pow 10 (-e).toNat
  let den := d * Nat.pow 10 e.toNat
  let near := roundDiv num den
  let far := if near = num / den then near + 1 else num / den
  [⟨near, e⟩, ⟨far, e⟩].find? x.readsBack

/-- All digits of `x`. -/
def exact (x : Binary) : Decimal :=
  let (n, _) := x.quotient
  if 0 ≤ x.exponent then ⟨n, 0⟩ else ⟨n * Nat.pow 5 (-x.exponent).toNat, x.exponent⟩

/-- The decimal with the fewest digits that reads back as `x`. Seventeen are enough
for every number. -/
def shortest (x : Binary) : Decimal :=
  ((List.range 17).findSome? fun i : Nat => x.onGrid? (x.magnitude - (i + 1))).getD x.exact

theorem readsBack_of_onGrid? {x : Binary} {e : Int} {d : Decimal} (h : x.onGrid? e = some d) :
    x.readsBack d = true := List.find?_some h

end Binary

namespace Decimal

def zeros (n : Nat) : List Char := List.replicate n '0'

/-- The digits of the coefficient without the zeros at its end. -/
def digits (d : Decimal) : List Char :=
  ((toString d.coefficient).toList.reverse.dropWhile (· == '0')).reverse

/-- How many digits stand before the point. -/
def pointAt (d : Decimal) : Int := (toString d.coefficient).length + d.exponent

/-- Digits with the point after the first `p` of them. -/
def positional (ds : List Char) (p : Int) : List Char :=
  if p ≤ 0 then '0' :: '.' :: zeros (-p).toNat ++ ds
  else if p ≤ ds.length then
    ds.take p.toNat ++ '.' :: (if p = ds.length then ['0'] else ds.drop p.toNat)
  else ds ++ zeros (p.toNat - ds.length) ++ ['.', '0']

/-- Digits with the point after the first one, which stands `e` places before the
point of the number. The exponent always has a sign. -/
def withExponent (ds : List Char) (e : Int) : List Char :=
  ds.take 1 ++ (if ds.length ≤ 1 then [] else '.' :: ds.drop 1)
    ++ 'e' :: (if e < 0 then '-' else '+') :: (toString e.natAbs).toList

def render (d : Decimal) : String :=
  String.ofList <|
    if d.digits.isEmpty then ['0', '.', '0']
    else if -5 < d.pointAt ∧ d.pointAt ≤ 16 then positional d.digits d.pointAt
    else withExponent d.digits (d.pointAt - 1)

end Decimal

end HandlerChain.Number
