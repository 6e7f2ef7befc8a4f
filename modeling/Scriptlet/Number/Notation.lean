import Scriptlet.Number.Shortest

/-!
# Scriptlet.Number.Notation

The text of a finite binary64 number. Its digits are the shortest that read back. Exponents from
-5 to 15 are written in plain notation, with at least one digit on each side of the point, all
others with a sign and no leading zeros after the letter `e`. Zero keeps its sign.
-/

namespace Scriptlet

def digitChars (ds : List Nat) : List Char := ds.map digitChar

def natText (n : Nat) : List Char := digitChars (toDigits n)

/-- Digits without a point, or with one after the first. -/
def significandText : List Nat → List Char
  | [] => ['0']
  | [d] => [digitChar d]
  | d :: ds => digitChar d :: '.' :: digitChars ds

namespace Decimal

/-- The least and the greatest exponent of plain notation. -/
def plainRange : Int × Int := (-5, 15)

/-- Plain notation of an exponent that is not negative: `before` digits stand before the point. -/
def wholeText (ds : List Nat) (before : Nat) : List Char :=
  let whole := ds.take before
  let part := ds.drop before
  digitChars whole ++ List.replicate (before - whole.length) '0' ++
    '.' :: (if part.isEmpty then ['0'] else digitChars part)

/-- Plain notation of a negative exponent: `zeros` zeros stand between the point and the digits. -/
def partText (ds : List Nat) (zeros : Nat) : List Char :=
  '0' :: '.' :: (List.replicate zeros '0' ++ digitChars ds)

def scientificText (ds : List Nat) (e : Int) : List Char :=
  significandText ds ++ 'e' :: (if 0 ≤ e then '+' else '-') :: natText e.natAbs

def text (d : Decimal) : List Char :=
  if plainRange.1 ≤ d.exponent ∧ d.exponent ≤ plainRange.2 then
    if 0 ≤ d.exponent then wholeText d.digits (d.exponent.toNat + 1)
    else partText d.digits (d.exponent.natAbs - 1)
  else scientificText d.digits d.exponent

end Decimal

namespace Binary64

def magnitudeText (x : Binary64) : List Char :=
  if x.units = 0 then ['0', '.', '0'] else x.decimal.text

def text (x : Binary64) : List Char :=
  if x.negative then '-' :: x.magnitudeText else x.magnitudeText

end Binary64

end Scriptlet
