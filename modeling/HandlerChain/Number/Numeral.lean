import HandlerChain.Number.Decimal

/-!
# Numerals

A numeral is a number as it is spelled: a sign, digits, a fraction and an exponent.
One with neither a fraction nor an exponent stands for an integer if the integer
fits a word of 64 bits; every other one stands for a binary number.

A binary number is read in steps, and each step rounds: the digits are gathered
into a whole number, which becomes a binary number, which is then scaled by a power
of ten. So a numeral of more than fifteen digits may be read as a neighbour of the
number nearest to it.
-/

namespace HandlerChain.Number

/-- What a numeral stands for. A binary number keeps its sign even if it is zero. -/
inductive Quantity where
  | integer (n : Int)
  | real (negative : Bool) (magnitude : Binary)
deriving DecidableEq, Repr

def Quantity.kind : Quantity → String
  | .integer _ => "integer"
  | .real _ _ => "floating point"

def Quantity.render : Quantity → String
  | .integer n => toString n
  | .real negative x => (if negative then "-" else "") ++ x.shortest.render

structure Numeral where
  negative : Bool
  whole : List Nat
  fraction : Option (List Nat)
  exponent : Option Int
deriving DecidableEq, Repr

namespace Numeral

/-! ### Spelling -/

/-- The digits at the start of a text, and what follows them; none if there are no
digits. -/
def digits? (cs : List Char) : Option (List Nat × List Char) :=
  match cs.takeWhile Char.isDigit with
  | [] => none
  | ds => some (ds.map fun c => c.toNat - '0'.toNat, cs.dropWhile Char.isDigit)

def value (digits : List Nat) : Nat := digits.foldl (fun n d => 10 * n + d) 0

/-- A whole part has no zero in front of other digits. -/
def whole? (cs : List Char) : Option (List Nat × List Char) :=
  match digits? cs with
  | some (0 :: _ :: _, _) => none
  | found => found

def fraction? : List Char → Option (Option (List Nat) × List Char)
  | '.' :: cs => (digits? cs).map fun (ds, rest) => (some ds, rest)
  | cs => some (none, cs)

def exponentDigits? : List Char → Option (Int × List Char)
  | '-' :: cs => (digits? cs).map fun (ds, rest) => (-(value ds : Int), rest)
  | '+' :: cs => (digits? cs).map fun (ds, rest) => ((value ds : Int), rest)
  | cs => (digits? cs).map fun (ds, rest) => ((value ds : Int), rest)

def exponent? : List Char → Option (Option Int × List Char)
  | 'e' :: cs | 'E' :: cs => (exponentDigits? cs).map fun (e, rest) => (some e, rest)
  | cs => some (none, cs)

def unsigned? (negative : Bool) (cs : List Char) : Option Numeral := do
  let (whole, cs) ← whole? cs
  let (fraction, cs) ← fraction? cs
  let (exponent, cs) ← exponent? cs
  if cs.isEmpty then some { negative, whole, fraction, exponent } else none

def ofText? (text : String) : Option Numeral :=
  match text.toList with
  | '-' :: cs => unsigned? true cs
  | cs => unsigned? false cs

/-! ### Value -/

/-- Append digits to a number for as long as it stays below `2 ^ 64`; the digits
that are left over come second. -/
def gather (n : Nat) : List Nat → Nat × List Nat
  | [] => (n, [])
  | d :: ds => if 10 * n + d < Nat.pow 2 64 then gather (10 * n + d) ds else (n, d :: ds)

theorem gather_lt {n : Nat} (ds : List Nat) (h : n < Nat.pow 2 64) :
    (gather n ds).1 < Nat.pow 2 64 := by
  induction ds generalizing n with
  | nil => exact h
  | cons d ds ih =>
    unfold gather
    split
    · next hd => exact ih hd
    · exact h

/-- The binary number nearest to `n`, scaled by a power of ten; none if it is out
of range. Zero stays zero. -/
def scaled? (n : Nat) (e : Int) : Option Binary := do
  let x ← Binary.ofNat? n
  if e < 0 then x.scaleDown? e.natAbs
  else if n = 0 then some x
  else if e ≤ 308 then x.scaleUp? e.toNat
  else none

/-- The magnitude as a binary number. Of the whole part, a digit that is left over
counts as a zero; of the fraction, it does not count. -/
def real? (n : Numeral) : Option Binary :=
  let fraction := n.fraction.getD []
  let (w, dropped) := gather 0 n.whole
  let (m, ignored) := gather w fraction
  scaled? m (n.exponent.getD 0 + dropped.length - (fraction.length - ignored.length : Nat))

/-- Whether the numeral stands for an integer: without a sign one below `2 ^ 64`,
with a sign one down to `-2 ^ 63`, but not zero. -/
def integer? (n : Numeral) : Option Int :=
  let v := value n.whole
  if n.fraction.isSome || n.exponent.isSome then none
  else if n.negative then if 0 < v ∧ v ≤ Nat.pow 2 63 then some (-v) else none
  else if v < Nat.pow 2 64 then some v else none

def quantity? (n : Numeral) : Option Quantity :=
  match n.integer? with
  | some i => some (.integer i)
  | none => n.real?.map (.real n.negative)

end Numeral

/-- The quantity that a text spells; none if it is no numeral or out of range. -/
def read? (text : String) : Option Quantity := (Numeral.ofText? text).bind Numeral.quantity?

end HandlerChain.Number
