import Scriptlet.Number.Binary64
import Scriptlet.Number.Digits

/-!
# Scriptlet.Number.Nearest

Rounding to binary64:

* `roundHalfEven`     — a quotient of natural numbers to the nearest natural number, an exact half
                        to the even neighbour.
* `nearestMagnitude`  — a quotient to the nearest magnitude of binary64, by the same rule; from
                        `2 ^ 1024 - 2 ^ 970` on that is infinity.
* `Binary64.read`     — the number that a string of decimal digits stands for.
-/

namespace Scriptlet

def roundHalfEven (num den : Nat) : Nat :=
  let q := num / den
  let twice := 2 * (num % den)
  if twice < den then q
  else if den < twice then q + 1
  else if q % 2 = 0 then q else q + 1

/-- Let the quotient be counted in units of the smallest positive number. Below `2 ^ 53` units
each whole number of units is in the format. Above, the numbers of the format lie `2 ^ places`
units apart, where `places` is the number of binary places beyond fifty-three; each further place
adds `2 ^ 52` to the magnitude, and a significand that rounds up to `2 ^ 53` carries into the next
place by itself. -/
def nearestMagnitude (num den : Nat) : Nat :=
  let scaled := num * pow2 1074
  let places := Nat.log2 (scaled / den) - 52
  min (places * pow2 52 + roundHalfEven scaled (den * pow2 places)) Binary64.infinite

namespace Binary64

def ofNat (n : Nat) : Binary64 := ofMagnitude (nearestMagnitude n 1)

/-- The number nearest to what a string of decimal digits denotes. Nothing else denotes one. -/
def read (cs : List Char) : Option Binary64 :=
  if !cs.isEmpty && cs.all isDigit then some (ofNat (ofDigits (cs.map digitValue))) else none

theorem read_digits {cs : List Char} (hne : cs ≠ []) (h : ∀ c ∈ cs, isDigit c = true) :
    read cs = some (ofNat (ofDigits (cs.map digitValue))) := by
  have hdigits : (!cs.isEmpty && cs.all isDigit) = true := by
    simpa [hne] using h
  rw [read, if_pos hdigits]

end Binary64

end Scriptlet
