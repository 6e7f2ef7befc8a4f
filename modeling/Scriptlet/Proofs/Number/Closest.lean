import Mathlib.Data.Nat.Dist
import Mathlib.Tactic.ByContra
import Scriptlet.Proofs.Number.Decimal

/-!
# Scriptlet.Proofs.Number.Closest

Which number of the format a quotient is rounded to, in natural numbers:

* `units_lt_units`         — magnitudes are in the order of their numbers.
* `roundHalfEven_closest`  — no multiple of the divisor is closer than the one that is chosen.
* `Placed`                 — the significand of a quotient, and the place of its last digit.
* `Binary64.gap`           — the distance between a quotient and a number of the format.

`gap_le_gap` says that nothing is closer to a quotient than what it is rounded to, infinity counting
as `2 ^ 1024`, and that of two equally close numbers it is the even one. Where infinity begins, that
rounding keeps the order, and that it keeps the natural numbers up to `2 ^ 53` follow from that.
-/

namespace Scriptlet

/-! ## The order of magnitudes -/

namespace Binary64

theorem exists_magnitude_eq {n : Nat} (h : n ≤ infinite) : ∃ x : Binary64, x.magnitude = n :=
  ⟨ofMagnitude n, magnitude_ofMagnitude (Nat.lt_of_le_of_lt h infinite_lt)⟩

theorem magnitude_mod_two (x : Binary64) : x.magnitude % 2 = x.significand % 2 := by
  have heven : x.shift * pow2 52 = x.shift * pow2 51 * 2 := (Nat.mul_assoc _ _ _).symm
  have := x.magnitude_eq
  omega

theorem units_lt {x : Binary64} {p : Nat} (h : x.shift < p) : x.units < pow2 52 * pow2 p := by
  calc x.units
      < pow2 53 * pow2 x.shift := Nat.mul_lt_mul_of_pos_right x.significand_lt (pow2_pos _)
    _ = pow2 (52 + (x.shift + 1)) := by
        rw [← pow2_add]
        congr 1
        omega
    _ ≤ pow2 52 * pow2 p := by
        rw [← pow2_add]
        exact pow2_le (by omega)

theorem units_lt_units {x y : Binary64} (h : x.magnitude < y.magnitude) : x.units < y.units := by
  rcases Nat.lt_trichotomy x.shift y.shift with hlt | heq | hgt
  · have hy : pow2 52 ≤ y.significand := y.significand_normal.resolve_left (by omega)
    exact Nat.lt_of_lt_of_le (units_lt hlt) (Nat.mul_le_mul_right _ hy)
  · rw [x.magnitude_eq, y.magnitude_eq, heq] at h
    rw [units, units, heq]
    exact Nat.mul_lt_mul_of_pos_right (by omega) (pow2_pos _)
  · have hx : pow2 52 ≤ x.significand := x.significand_normal.resolve_left (by omega)
    have hshift : (y.shift + 1) * pow2 52 ≤ x.shift * pow2 52 := Nat.mul_le_mul_right _ hgt
    have hy := y.significand_lt
    have hdouble : pow2 53 = pow2 52 + pow2 52 := by decide
    rw [x.magnitude_eq, y.magnitude_eq] at h
    rw [Nat.succ_mul] at hshift
    omega

theorem units_congr {x y : Binary64} (h : x.magnitude = y.magnitude) : x.units = y.units :=
  (units_eq (h.symm.trans x.magnitude_eq) x.significand_normal
    (Nat.le_of_lt x.significand_lt)).symm

theorem units_le_units {x y : Binary64} (h : x.magnitude ≤ y.magnitude) : x.units ≤ y.units := by
  rcases Nat.lt_or_eq_of_le h with hlt | heq
  · exact Nat.le_of_lt (units_lt_units hlt)
  · exact Nat.le_of_eq (units_congr heq)

theorem units_ne_units {x y : Binary64} (h : x.magnitude ≠ y.magnitude) : x.units ≠ y.units := by
  rcases Nat.lt_or_gt_of_ne h with hlt | hgt
  · exact Nat.ne_of_lt (units_lt_units hlt)
  · exact Nat.ne_of_gt (units_lt_units hgt)

theorem units_of_infinite {x : Binary64} (h : x.magnitude = infinite) :
    x.units = pow2 52 * pow2 2046 :=
  units_eq (h.trans (by decide +kernel)) (.inr (Nat.le_refl _)) (by decide +kernel)

end Binary64

/-! ## The closest multiple -/

theorem dist_roundHalfEven (num den : Nat) (hd : 0 < den) :
    2 * Nat.dist num (roundHalfEven num den * den) ≤ den ∧
      (2 * Nat.dist num (roundHalfEven num den * den) = den → roundHalfEven num den % 2 = 0) := by
  have hsplit : num / den * den + num % den = num := by
    rw [Nat.mul_comm]
    exact Nat.div_add_mod num den
  have hrest : num % den < den := Nat.mod_lt num hd
  have hnext : (num / den + 1) * den = num / den * den + den := Nat.succ_mul _ _
  simp only [roundHalfEven, Nat.dist]
  repeat' split
  all_goals omega

theorem le_dist_mul {i j : Nat} (h : i ≠ j) (d : Nat) : d ≤ Nat.dist (i * d) (j * d) := by
  rw [Nat.dist]
  rcases Nat.lt_or_gt_of_ne h with hlt | hgt
  · have := Nat.mul_le_mul_right d hlt
    rw [Nat.succ_mul] at this
    omega
  · have := Nat.mul_le_mul_right d hgt
    rw [Nat.succ_mul] at this
    omega

/-- No multiple of the divisor is closer than the one that is chosen. -/
theorem roundHalfEven_closest {num den : Nat} (hd : 0 < den) {j : Nat}
    (hj : roundHalfEven num den ≠ j) :
    Nat.dist num (roundHalfEven num den * den) ≤ Nat.dist num (j * den) ∧
      (Nat.dist num (roundHalfEven num den * den) = Nat.dist num (j * den) →
        roundHalfEven num den % 2 = 0) := by
  obtain ⟨hhalf, heven⟩ := dist_roundHalfEven num den hd
  have hapart := le_dist_mul hj den
  generalize roundHalfEven num den * den = a at *
  generalize j * den = b at *
  have htriangle : Nat.dist a b ≤ Nat.dist num a + Nat.dist num b := by
    rw [Nat.dist_comm num a]
    exact Nat.dist.triangle_inequality a num b
  exact ⟨by omega, fun heq => heven (by omega)⟩

/-! ## The closest magnitude -/

/-- A quotient, counted in the smallest units, has the significand `q`, the last digit of which
stands `p` places above the smallest unit. -/
structure Placed (num den p q : Nat) : Prop where
  round : q = roundHalfEven (num * pow2 1074) (den * pow2 p)
  place : p = 0 ∨ pow2 52 * (den * pow2 p) ≤ num * pow2 1074
  high : q ≤ pow2 53

theorem exists_placed (num : Nat) {den : Nat} (hd : 0 < den) :
    ∃ p q, Placed num den p q ∧
      nearestMagnitude num den = min (p * pow2 52 + q) Binary64.infinite := by
  rcases Nat.lt_or_ge (num * pow2 1074 / den) (pow2 52) with hlt | hge
  · have hplaces : Nat.log2 (num * pow2 1074 / den) - 52 = 0 := by
      rcases Nat.eq_zero_or_pos (num * pow2 1074 / den) with hzero | hpos
      · rw [hzero]
        rfl
      · have hlog := (Nat.log2_lt (Nat.ne_of_gt hpos)).2 hlt
        omega
    have hhigh : roundHalfEven (num * pow2 1074) (den * pow2 0) ≤ pow2 53 := by
      rw [pow2_zero, Nat.mul_one]
      have := (roundHalfEven_bounds (num * pow2 1074) den).2
      have hdouble : pow2 53 = pow2 52 + pow2 52 := by decide
      omega
    refine ⟨0, _, ⟨rfl, .inl rfl, hhigh⟩, ?_⟩
    simp only [nearestMagnitude, hplaces]
  · obtain ⟨p, q, hq, hquotient, hhigh, hmagnitude⟩ := nearestMagnitude_normal hge
    refine ⟨p, q, ⟨hq, .inr ?_, hhigh⟩, hmagnitude⟩
    exact (Nat.le_div_iff_mul_le (Nat.mul_pos hd (pow2_pos p))).1 hquotient

namespace Placed

variable {num den p q : Nat}

theorem low (h : Placed num den p q) (hd : 0 < den) : p = 0 ∨ pow2 52 ≤ q := by
  refine h.place.imp_right fun hplace => ?_
  rw [h.round]
  refine Nat.le_trans ?_ (roundHalfEven_bounds _ _).1
  exact (Nat.le_div_iff_mul_le (Nat.mul_pos hd (pow2_pos p))).2 hplace

/-- The number with this significand at this place is the closest: the numbers with a place at
least as high are multiples of the same unit, and the others lie below `2 ^ 52` of these units. -/
theorem closest (h : Placed num den p q) (hd : 0 < den) {y : Binary64}
    (hy : y.units ≠ q * pow2 p) :
    Nat.dist (num * pow2 1074) (q * pow2 p * den) ≤ Nat.dist (num * pow2 1074) (y.units * den) ∧
      (Nat.dist (num * pow2 1074) (q * pow2 p * den) =
        Nat.dist (num * pow2 1074) (y.units * den) → q % 2 = 0) := by
  have hmul : ∀ j, j * pow2 p * den = j * (den * pow2 p) := fun j => by
    rw [Nat.mul_assoc, Nat.mul_comm (pow2 p)]
  have hstep : 0 < den * pow2 p := Nat.mul_pos hd (pow2_pos p)
  have hround := h.round
  rcases Nat.lt_or_ge y.shift p with hlt | hge
  · have hplace := h.place.resolve_left (by omega)
    have hbelow : y.units * den < pow2 52 * (den * pow2 p) := by
      rw [← hmul]
      exact Nat.mul_lt_mul_of_pos_right (Binary64.units_lt hlt) hd
    have hfirst : Nat.dist (num * pow2 1074) (q * (den * pow2 p)) ≤
        Nat.dist (num * pow2 1074) (pow2 52 * (den * pow2 p)) := by
      by_cases heq : q = pow2 52
      · rw [heq]
      · rw [hround] at heq ⊢
        exact (roundHalfEven_closest hstep heq).1
    rw [hmul]
    simp only [Nat.dist] at hfirst ⊢
    omega
  · obtain ⟨k, hk⟩ := Nat.exists_eq_add_of_le hge
    have hunits : y.units = y.significand * pow2 k * pow2 p := by
      rw [Binary64.units, hk, Nat.add_comm, pow2_add, Nat.mul_assoc]
    rw [hunits] at hy ⊢
    rw [hmul, hmul, hround]
    refine roundHalfEven_closest hstep fun heq => hy ?_
    rw [← heq, ← hround]

end Placed

namespace Binary64

/-- How far a quotient is from a number of the format, counted in the smallest units and multiplied
by the divisor. -/
def gap (num den : Nat) (x : Binary64) : Nat := Nat.dist (num * pow2 1074) (x.units * den)

variable {num den : Nat} {x y : Binary64}

/-- Nothing up to infinity is closer to a quotient than what it is rounded to, which is even if
something else is as close. -/
theorem gap_le_gap (hd : 0 < den) (hx : x.magnitude = nearestMagnitude num den)
    (hy : y.magnitude ≤ infinite) (hne : y.magnitude ≠ x.magnitude) :
    gap num den x ≤ gap num den y ∧
      (gap num den x = gap num den y → x.magnitude % 2 = 0) := by
  obtain ⟨p, q, hplaced, hmin⟩ := exists_placed num hd
  have hinfinite : infinite = 2047 * pow2 52 := rfl
  rcases Nat.lt_or_ge infinite (p * pow2 52 + q) with hcapped | hle
  · rw [Nat.min_eq_right (Nat.le_of_lt hcapped)] at hmin
    have hp : 2046 ≤ p := by
      by_contra hlt
      have hdouble : pow2 53 = pow2 52 + pow2 52 := by decide
      have hmul : p * pow2 52 ≤ 2045 * pow2 52 := Nat.mul_le_mul_right _ (by omega)
      have hhigh := hplaced.high
      omega
    have hlarge : x.units * den ≤ num * pow2 1074 := by
      calc x.units * den
          = pow2 52 * (den * pow2 2046) := by
            rw [units_of_infinite (hx.trans hmin), Nat.mul_assoc, Nat.mul_comm den]
        _ ≤ pow2 52 * (den * pow2 p) :=
            Nat.mul_le_mul_left _ (Nat.mul_le_mul_left _ (pow2_le hp))
        _ ≤ num * pow2 1074 := hplaced.place.resolve_left (by omega)
    have hbelow : y.units * den < x.units * den :=
      Nat.mul_lt_mul_of_pos_right (units_lt_units (by omega)) hd
    simp only [gap, Nat.dist]
    omega
  · rw [Nat.min_eq_left hle] at hmin
    rw [hmin] at hx
    have hunits := units_eq hx (hplaced.low hd) hplaced.high
    have heven : p * pow2 52 = p * pow2 51 * 2 := (Nat.mul_assoc _ _ _).symm
    obtain ⟨hclosest, hq⟩ := hplaced.closest hd (hunits ▸ units_ne_units hne)
    rw [gap, gap, hunits]
    refine ⟨hclosest, fun heq => ?_⟩
    have := hq heq
    omega

/-- The greatest finite number. -/
def greatest : Binary64 := ofMagnitude (infinite - 1)

theorem magnitude_greatest : greatest.magnitude = infinite - 1 := by decide +kernel

/-- It lies as far below `2 ^ 1024 - 2 ^ 970` as infinity lies above. -/
theorem units_greatest :
    greatest.units + 2 * (pow2 970 * pow2 1074) = pow2 1024 * pow2 1074 := by decide +kernel

theorem overflow_iff : (pow2 1024 - pow2 970) * den ≤ num ↔
    pow2 1024 * pow2 1074 * den ≤ num * pow2 1074 + pow2 970 * pow2 1074 * den := by
  have hsum : num * pow2 1074 + pow2 970 * pow2 1074 * den =
      (num + pow2 970 * den) * pow2 1074 := by
    rw [Nat.add_mul, Nat.mul_right_comm (pow2 970)]
  rw [hsum, Nat.mul_right_comm (pow2 1024), Nat.mul_le_mul_right_iff (pow2_pos _), Nat.sub_mul]
  omega

/-- Halfway between the greatest finite number and infinity a quotient is rounded to infinity, which
is the even one of the two. -/
theorem nearestMagnitude_eq_infinite_iff (hd : 0 < den) :
    nearestMagnitude num den = infinite ↔ (pow2 1024 - pow2 970) * den ≤ num := by
  obtain ⟨x, hx⟩ := exists_magnitude_eq (nearestMagnitude_le num den)
  obtain ⟨i, hi⟩ := exists_magnitude_eq (Nat.le_refl infinite)
  have hle : x.magnitude ≤ infinite := hx ▸ nearestMagnitude_le num den
  have hg := magnitude_greatest
  have hparity : infinite % 2 = 0 ∧ 0 < infinite := by decide +kernel
  have hiunits : i.units * den = pow2 1024 * pow2 1074 * den :=
    congrArg (· * den) ((units_of_infinite hi).trans (by decide +kernel))
  have hgunits : greatest.units * den + 2 * (pow2 970 * pow2 1074 * den) =
      pow2 1024 * pow2 1074 * den := by
    rw [← units_greatest, Nat.add_mul, Nat.mul_assoc 2]
  have hpos : 0 < pow2 970 * pow2 1074 * den :=
    Nat.mul_pos (Nat.mul_pos (pow2_pos _) (pow2_pos _)) hd
  rw [overflow_iff, ← hx]
  generalize pow2 970 * pow2 1074 * den = b at *
  constructor
  · intro hxi
    have hclosest : gap num den x ≤ gap num den greatest :=
      (gap_le_gap hd hx (by omega) (by omega)).1
    rw [gap, gap, units_congr (hxi.trans hi.symm), hiunits] at hclosest
    simp only [Nat.dist] at hclosest
    omega
  · intro hover
    by_contra hne
    have hclosest : gap num den x ≤ gap num den i ∧ _ := gap_le_gap hd hx (by omega) (by omega)
    have hxg : x.units * den ≤ greatest.units * den :=
      Nat.mul_le_mul_right _ (units_le_units (by omega))
    simp only [gap, hiunits, Nat.dist] at hclosest
    -- Only the greatest finite number is as close as infinity, and it is odd.
    have heven := hclosest.2 (by omega)
    have hxg' : x.units * den < greatest.units * den :=
      Nat.mul_lt_mul_of_pos_right (units_lt_units (by omega)) hd
    omega

/-- A greater number is not rounded to a smaller one: both would lie halfway between the two. -/
theorem nearestMagnitude_mono {num' : Nat} (hd : 0 < den) (h : num ≤ num') :
    nearestMagnitude num den ≤ nearestMagnitude num' den := by
  obtain ⟨x, hx⟩ := exists_magnitude_eq (nearestMagnitude_le num den)
  obtain ⟨y, hy⟩ := exists_magnitude_eq (nearestMagnitude_le num' den)
  by_contra hlt
  have hx' := (gap_le_gap hd hx (hy ▸ nearestMagnitude_le num' den) (by omega)).1
  have hy' := (gap_le_gap hd hy (hx ▸ nearestMagnitude_le num den) (by omega)).1
  have hunits : y.units * den < x.units * den :=
    Nat.mul_lt_mul_of_pos_right (units_lt_units (by omega)) hd
  have hscaled : num * pow2 1074 ≤ num' * pow2 1074 := Nat.mul_le_mul_right _ h
  have heq : num * pow2 1074 = num' * pow2 1074 := by
    simp only [gap, Nat.dist] at hx' hy'
    omega
  rw [Nat.mul_right_cancel (pow2_pos _) heq] at hlt
  exact hlt (Nat.le_refl _)

theorem exists_units_eq {p q : Nat} (hp : p ≤ 2044) (hlow : pow2 52 ≤ q) (hhigh : q ≤ pow2 53) :
    ∃ y : Binary64, y.isFinite = true ∧ y.units = q * pow2 p := by
  have hplace : p * pow2 52 ≤ 2044 * pow2 52 := Nat.mul_le_mul_right _ hp
  have hdouble : pow2 53 = pow2 52 + pow2 52 := by decide
  have hinfinite : infinite = 2047 * pow2 52 := rfl
  have hpos := pow2_pos 52
  obtain ⟨y, hy⟩ := exists_magnitude_eq (n := p * pow2 52 + q) (by omega)
  exact ⟨y, isFinite_iff.2 (by omega), units_eq hy (.inr hlow) hhigh⟩

/-- The first digit of a natural number is moved to the first of fifty-three places. -/
theorem exists_significand {n : Nat} (hpos : 0 < n) (h : n ≤ pow2 53) :
    ∃ k ≤ 52, pow2 52 ≤ n * pow2 k ∧ n * pow2 k ≤ pow2 53 := by
  have hlow : pow2 n.log2 ≤ n := Nat.log2_self_le (Nat.ne_of_gt hpos)
  have hhigh : n < pow2 (n.log2 + 1) := Nat.lt_log2_self
  rcases Nat.lt_or_ge 52 n.log2 with hlarge | hsmall
  · refine ⟨0, Nat.zero_le _, ?_, ?_⟩
    · rw [pow2_zero, Nat.mul_one]
      exact Nat.le_trans (pow2_le (Nat.le_of_lt hlarge)) hlow
    · rwa [pow2_zero, Nat.mul_one]
  · have hsum : pow2 n.log2 * pow2 (52 - n.log2) = pow2 52 := by
      rw [← pow2_add, Nat.add_sub_cancel' hsmall]
    have hsum' : pow2 (n.log2 + 1) * pow2 (52 - n.log2) = pow2 53 := by
      rw [pow2_succ, Nat.mul_right_comm, hsum]
      rfl
    refine ⟨52 - n.log2, Nat.sub_le _ _, ?_, ?_⟩
    · rw [← hsum]
      exact Nat.mul_le_mul_right _ hlow
    · rw [← hsum']
      exact Nat.mul_le_mul_right _ (Nat.le_of_lt hhigh)

/-- Up to `2 ^ 53` natural numbers are numbers of the format. -/
theorem units_ofNat {n : Nat} (h : n ≤ pow2 53) : (ofNat n).units = n * pow2 1074 := by
  rcases Nat.eq_zero_or_pos n with rfl | hpos
  · decide +kernel
  obtain ⟨k, hk, hlow, hhigh⟩ := exists_significand hpos h
  have hplace : 1074 - k ≤ 2044 := Nat.le_trans (Nat.sub_le 1074 k) (by decide)
  obtain ⟨y, hfinite, hy⟩ := exists_units_eq hplace hlow hhigh
  have hunits : y.units = n * pow2 1074 := by
    rw [hy, Nat.mul_assoc, ← pow2_add, Nat.add_sub_cancel' (Nat.le_trans hk (by decide))]
  rw [← hunits]
  refine units_congr ((magnitude_ofNat n).trans ?_)
  exact nearestMagnitude_of_units hfinite Nat.one_pos (hunits.symm.trans (Nat.mul_one _).symm)

end Binary64

end Scriptlet
