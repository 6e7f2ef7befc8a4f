import Scriptlet.Number.Nearest

/-!
# Scriptlet.Number.Shortest

The shortest decimal digits that read back as a binary64 number.

* `Decimal`           — digits `d₁ d₂ … dₙ` and an exponent `e`, for `d₁.d₂…dₙ × 10 ^ e`.
* `Binary64.decimal`  — the digits of a finite number: as few as read back, of those the nearest,
                        of two equally near the even one.

A binary fraction has an exact decimal expansion. Cut after some leading digits, it has two
neighbours of that many digits; `candidate?` tries both, and `decimal` takes the first number of
digits that has a hit. Seventeen digits are always enough; the exact expansion is there so that
nothing hangs on it.
-/

namespace Scriptlet

structure Decimal where
  digits : List Nat
  exponent : Int
  deriving DecidableEq, Repr

namespace Decimal

def dropZeros (ds : List Nat) : List Nat := (ds.reverse.dropWhile (· = 0)).reverse

/-- The decimal with the value `n × 10 ^ power`. -/
def ofScaled (n : Nat) (power : Int) : Decimal :=
  let ds := toDigits n
  ⟨dropZeros ds, (ds.length : Int) - 1 + power⟩

end Decimal

namespace Binary64

open Decimal

/-- How many decimal places the magnitude has at most: as many as binary places. -/
def places (x : Binary64) : Nat := 1074 - x.shift

/-- The magnitude in units of its last decimal place. -/
def expansion (x : Binary64) : Nat := x.significand * pow2 (x.shift - 1074) * pow5 x.places

/-- Whether the expansion with its last `dropped` digits replaced, so that `n` are left, reads back
as the magnitude of `x`. -/
def readsBack (x : Binary64) (n dropped : Nat) : Bool :=
  nearestMagnitude (n * pow10 dropped) (pow10 x.places) == x.magnitude

/-- Of the two neighbours of the expansion without its last `dropped` digits those that read back,
and of both the nearer one. -/
def candidate? (x : Binary64) (dropped : Nat) : Option Decimal :=
  let below := x.expansion / pow10 dropped
  let power := (dropped : Int) - (x.places : Int)
  if x.readsBack below dropped then
    if x.readsBack (below + 1) dropped then
      some (ofScaled (roundHalfEven x.expansion (pow10 dropped)) power)
    else some (ofScaled below power)
  else if x.readsBack (below + 1) dropped then some (ofScaled (below + 1) power)
  else none

def decimal (x : Binary64) : Decimal :=
  let length := (toDigits x.expansion).length
  ((List.range 17).findSome? fun n => x.candidate? (length - (n + 1))).getD
    (ofScaled x.expansion (-(x.places : Int)))

end Binary64

end Scriptlet
