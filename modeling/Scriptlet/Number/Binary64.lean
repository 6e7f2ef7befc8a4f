import Scriptlet.Number.Power

/-!
# Scriptlet.Number.Binary64

Numbers of the IEEE format binary64, given by their 64 bits: one for the sign, eleven for the
exponent and fifty-two for the fraction.

* `Binary64.units`  — the magnitude of a finite number in units of `2 ^ -1074`, the smallest
                      positive number of the format. Every finite number is a multiple of it.
* `Binary64.equal`  — equality of numbers: zeros are equal whatever their sign, and what is no
                      number equals nothing.
-/

namespace Scriptlet

structure Binary64 where
  bits : UInt64
  deriving DecidableEq, Repr

namespace Binary64

def negative (x : Binary64) : Bool := pow2 63 ≤ x.bits.toNat

/-- The bits without the sign. Magnitudes are in the order of their numbers. -/
def magnitude (x : Binary64) : Nat := x.bits.toNat % pow2 63

def exponentField (x : Binary64) : Nat := x.magnitude / pow2 52

def fraction (x : Binary64) : Nat := x.magnitude % pow2 52

/-- The magnitude of infinity. Above it nothing is a number. -/
def infinite : Nat := 2047 * pow2 52

def isFinite (x : Binary64) : Bool := x.magnitude < infinite

def isNaN (x : Binary64) : Bool := infinite < x.magnitude

/-- The fifty-three digits of a number in base two, the first of them implicit unless the exponent
field is zero. -/
def significand (x : Binary64) : Nat :=
  if x.exponentField = 0 then x.fraction else pow2 52 + x.fraction

/-- By how many binary places the last digit of the significand stands above the smallest unit.
Numbers with the exponent fields zero and one have the same unit. -/
def shift (x : Binary64) : Nat := x.exponentField - 1

def units (x : Binary64) : Nat := x.significand * pow2 x.shift

def ofMagnitude (n : Nat) : Binary64 := ⟨UInt64.ofNat n⟩

def equal (x y : Binary64) : Bool :=
  !x.isNaN && !y.isNaN && (x.bits == y.bits || x.magnitude == 0 && y.magnitude == 0)

theorem magnitude_ofMagnitude {n : Nat} (h : n < pow2 63) : (ofMagnitude n).magnitude = n := by
  have h64 : (UInt64.ofNat n).toNat = n :=
    UInt64.toNat_ofNat_of_lt' (Nat.lt_trans h (by decide +kernel))
  simp only [magnitude, ofMagnitude, h64]
  exact Nat.mod_eq_of_lt h

end Binary64

end Scriptlet
