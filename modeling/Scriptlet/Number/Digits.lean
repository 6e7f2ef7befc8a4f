import Scriptlet.Number.Power

/-!
# Scriptlet.Number.Digits

Decimal digits of natural numbers, the most significant first. `ofDigits` reads them and
`toDigits` writes them, without leading zeros; `ofDigits_toDigits` says that the number comes back.
As characters, digits are those of ASCII alone.
-/

namespace Scriptlet

def ofDigits (ds : List Nat) : Nat := ds.foldl (fun n d => 10 * n + d) 0

/-- The digits of `n` before some digits that follow. -/
def digitsBefore (n : Nat) (following : List Nat) : List Nat :=
  if n < 10 then n :: following else digitsBefore (n / 10) (n % 10 :: following)
termination_by n

def toDigits (n : Nat) : List Nat := digitsBefore n []

def isDigit (c : Char) : Bool := '0' ≤ c && c ≤ '9'

def digitChar (d : Nat) : Char := Char.ofNat ('0'.toNat + d)

def digitValue (c : Char) : Nat := c.toNat - '0'.toNat

theorem foldl_digits (ds : List Nat) (n : Nat) :
    ds.foldl (fun n d => 10 * n + d) n = n * pow10 ds.length + ofDigits ds := by
  induction ds generalizing n with
  | nil => simp [ofDigits]
  | cons d r ih =>
    rw [ofDigits, List.foldl_cons, List.foldl_cons, ih, ih (10 * 0 + d), List.length_cons,
      pow10_succ]
    grind

theorem ofDigits_cons (d : Nat) (ds : List Nat) :
    ofDigits (d :: ds) = d * pow10 ds.length + ofDigits ds := by
  rw [ofDigits, List.foldl_cons, foldl_digits]
  simp

theorem ofDigits_append (ds es : List Nat) :
    ofDigits (ds ++ es) = ofDigits ds * pow10 es.length + ofDigits es := by
  rw [ofDigits, List.foldl_append, foldl_digits]
  rfl

theorem ofDigits_digitsBefore (n : Nat) (ds : List Nat) :
    ofDigits (digitsBefore n ds) = n * pow10 ds.length + ofDigits ds := by
  fun_induction digitsBefore n ds with
  | case1 n ds _ => exact ofDigits_cons n ds
  | case2 n ds _ ih =>
    rw [ih, ofDigits_cons, List.length_cons, pow10_succ]
    have := Nat.div_add_mod n 10
    grind

theorem ofDigits_toDigits (n : Nat) : ofDigits (toDigits n) = n := by
  rw [toDigits, ofDigits_digitsBefore]
  simp [ofDigits]

theorem digitsBefore_lt {n : Nat} {ds : List Nat} (h : ∀ d ∈ ds, d < 10) :
    ∀ d ∈ digitsBefore n ds, d < 10 := by
  fun_induction digitsBefore n ds with
  | case1 n ds hn => simpa [hn] using h
  | case2 n ds _ ih =>
    apply ih
    simpa [Nat.mod_lt] using h

theorem toDigits_lt (n : Nat) : ∀ d ∈ toDigits n, d < 10 := digitsBefore_lt (by simp)

theorem digitsBefore_ne_nil (n : Nat) (ds : List Nat) : digitsBefore n ds ≠ [] := by
  fun_induction digitsBefore n ds with
  | case1 => simp
  | case2 _ _ _ ih => exact ih

theorem toDigits_ne_nil (n : Nat) : toDigits n ≠ [] := digitsBefore_ne_nil n []

theorem digitValue_digitChar {d : Nat} (h : d < 10) : digitValue (digitChar d) = d := by
  have all : ∀ d < 10, digitValue (digitChar d) = d := by decide
  exact all d h

theorem isDigit_digitChar {d : Nat} (h : d < 10) : isDigit (digitChar d) = true := by
  have all : ∀ d < 10, isDigit (digitChar d) = true := by decide
  exact all d h

end Scriptlet
