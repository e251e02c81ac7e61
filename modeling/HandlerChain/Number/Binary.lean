/-!
# Binary numbers

A number with a fractional part is kept in binary, with 53 significant bits at
most. Whatever is computed with such numbers is computed exactly and then rounded
once, to the nearest of them; of two that are equally near, the one with the even
significand is taken.
-/

namespace HandlerChain.Number

/-- The whole number nearest to `num / den`, the even one of two. -/
def roundDiv (num den : Nat) : Nat :=
  let q := num / den
  let r := num % den
  if 2 * r < den ∨ (2 * r = den ∧ q % 2 = 0) then q else q + 1

/-- The rounded quotient is off by half a unit at most. -/
theorem roundDiv_near (num : Nat) {den : Nat} (h : 0 < den) :
    2 * (den * roundDiv num den) ≤ 2 * num + den ∧ 2 * num ≤ 2 * (den * roundDiv num den) + den := by
  have hq := Nat.div_add_mod num den
  have hr := Nat.mod_lt num h
  simp only [roundDiv]
  split
  · omega
  · rw [Nat.mul_succ]
    omega

/-- The number `significand * 2 ^ exponent`. -/
structure Binary where
  significand : Nat
  exponent : Int
  significand_lt : significand < Nat.pow 2 53
  le_exponent : -1074 ≤ exponent
  exponent_le : exponent ≤ 971
deriving DecidableEq, Repr

namespace Binary

/-- The quotient `num / den` times `2 ^ e`, as a quotient. -/
def shift (num den : Nat) (e : Int) : Nat × Nat :=
  (num * Nat.pow 2 e.toNat, den * Nat.pow 2 (-e).toNat)

/-- The exponent of the greatest power of two that is at most `num / den`. -/
def binade (num den : Nat) : Int :=
  let e : Int := num.log2 - den.log2
  let (n, d) := shift num den (-e)
  if d ≤ n then e else e - 1

/-- The number with the given parts, if they are within the limits. -/
def ofParts? (m : Nat) (e : Int) : Option Binary :=
  if h : m < Nat.pow 2 53 ∧ -1074 ≤ e ∧ e ≤ 971 then some ⟨m, e, h.1, h.2.1, h.2.2⟩ else none

/-- The binary number nearest to `num / den`; none if that is too great. -/
def nearest? (num den : Nat) : Option Binary :=
  let e := if num = 0 then -1074 else max (binade num den - 52) (-1074)
  let (n, d) := shift num den (-e)
  let m := roundDiv n d
  if m = Nat.pow 2 53 then ofParts? (Nat.pow 2 52) (e + 1) else ofParts? m e

/-- The value as a quotient of natural numbers. -/
def quotient (x : Binary) : Nat × Nat := shift x.significand 1 x.exponent

def ofNat? (n : Nat) : Option Binary := nearest? n 1

def mul? (x y : Binary) : Option Binary :=
  nearest? (x.quotient.1 * y.quotient.1) (x.quotient.2 * y.quotient.2)

def div? (x y : Binary) : Option Binary :=
  nearest? (x.quotient.1 * y.quotient.2) (x.quotient.2 * y.quotient.1)

/-- Multiply by a power of ten, which is itself rounded first. -/
def scaleUp? (x : Binary) (k : Nat) : Option Binary := do
  x.mul? (← ofNat? (Nat.pow 10 k))

/-- Divide by a power of ten. The powers end with the 308th: what is to be divided
by a greater one is divided by that one first, and rounded, until it is zero or
the power is in reach. -/
def scaleDown? (x : Binary) (k : Nat) : Option Binary :=
  if _h : k ≤ 308 then do x.div? (← ofNat? (Nat.pow 10 k))
  else if x.significand = 0 then some x
  else do
    let y ← x.div? (← ofNat? (Nat.pow 10 308))
    y.scaleDown? (k - 308)
termination_by k

end Binary

end HandlerChain.Number
