/-!
# Scriptlet.Text.CodePointSet

Sets of characters given by ascending, disjoint ranges of code points, as character properties are
tabulated. `contains` stops at the first range that lies beyond the character, and
`contains_iff` says that nothing is lost by that.
-/

namespace Scriptlet

/-- Whether ranges lie in ascending order, none of them empty, from `low` on. -/
def ascends : Nat → List (Nat × Nat) → Bool
  | _, [] => true
  | low, (first, last) :: rest => low ≤ first && first ≤ last && ascends (last + 1) rest

structure CodePointSet where
  /-- First and last code point of each range. -/
  ranges : List (Nat × Nat)
  ascending : ascends 0 ranges = true := by decide +kernel

/-- Whether `n` lies in one of the ascending `ranges`. -/
def covers : List (Nat × Nat) → Nat → Bool
  | [], _ => false
  | (first, last) :: rest, n =>
    if n < first then false else if n ≤ last then true else covers rest n

theorem le_of_covers {ranges : List (Nat × Nat)} {low n : Nat} (ha : ascends low ranges = true)
    (hc : covers ranges n = true) : low ≤ n := by
  induction ranges generalizing low with
  | nil => simp [covers] at hc
  | cons r rest ih =>
    simp only [ascends, Bool.and_eq_true, decide_eq_true_eq] at ha
    simp only [covers] at hc
    split at hc
    · simp at hc
    · omega

theorem covers_iff {ranges : List (Nat × Nat)} {low n : Nat} (ha : ascends low ranges = true) :
    covers ranges n = true ↔ ∃ r ∈ ranges, r.1 ≤ n ∧ n ≤ r.2 := by
  induction ranges generalizing low with
  | nil => simp [covers]
  | cons r rest ih =>
    simp only [ascends, Bool.and_eq_true, decide_eq_true_eq] at ha
    simp only [covers, List.mem_cons, exists_eq_or_imp]
    rw [← ih ha.2]
    constructor
    · intro hc
      split at hc
      · simp at hc
      · split at hc
        · exact .inl (by omega)
        · exact .inr hc
    · intro hc
      rcases hc with hc | hc
      · rw [if_neg (by omega), if_pos hc.2]
      · have := le_of_covers ha.2 hc
        rw [if_neg (by omega), if_neg (by omega)]
        exact hc

namespace CodePointSet

def contains (s : CodePointSet) (c : Char) : Bool := covers s.ranges c.toNat

theorem contains_iff (s : CodePointSet) (c : Char) :
    s.contains c = true ↔ ∃ r ∈ s.ranges, r.1 ≤ c.toNat ∧ c.toNat ≤ r.2 :=
  covers_iff s.ascending

end CodePointSet

end Scriptlet
