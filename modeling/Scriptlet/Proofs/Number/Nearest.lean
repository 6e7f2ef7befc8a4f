import Mathlib.Algebra.Order.Field.Basic
import Mathlib.Algebra.Order.Field.Rat
import Mathlib.Tactic.Linarith
import Scriptlet.Proofs.Number.Closest

/-!
# Scriptlet.Proofs.Number.Nearest

The rule by which a rational number is rounded, stated without a word about how it is done:

* `Binary64.size`     — the number that a binary64 stands for, without its sign.
* `Binary64.Nearest`  — no finite number of the format is closer; if another one is as close, the
                        significand is even; from `2 ^ 1024 - 2 ^ 970` on there is infinity instead.

`nearest_iff` says that the magnitude of a quotient is nearest to it, and no other magnitude is.
-/

namespace Scriptlet

namespace Binary64

/-- The number that a binary64 stands for, without its sign. Infinity counts as `2 ^ 1024`, which
would come after the greatest finite number. -/
def size (x : Binary64) : ℚ := x.units / pow2 1074

structure Nearest (x : Binary64) (r : ℚ) : Prop where
  number : x.isNaN = false
  infinite_iff : x.isFinite = false ↔ (pow2 1024 : ℚ) - pow2 970 ≤ r
  closest : x.isFinite = true → ∀ y : Binary64, y.isFinite = true →
    |r - x.size| ≤ |r - y.size|
  even : x.isFinite = true → ∀ y : Binary64, y.isFinite = true → y.size ≠ x.size →
    |r - y.size| = |r - x.size| → x.significand % 2 = 0

variable {num den : Nat} {x y : Binary64} {r : ℚ}

theorem cast_pow2_pos (n : Nat) : (0 : ℚ) < pow2 n := Nat.cast_pos.2 (pow2_pos n)

theorem size_lt_size (h : x.magnitude < y.magnitude) : x.size < y.size :=
  div_lt_div_of_pos_right (Nat.cast_lt.2 (units_lt_units h)) (cast_pow2_pos _)

theorem size_le_size (h : x.magnitude ≤ y.magnitude) : x.size ≤ y.size :=
  div_le_div_of_nonneg_right (Nat.cast_le.2 (units_le_units h)) (cast_pow2_pos _).le

theorem size_congr (h : x.magnitude = y.magnitude) : x.size = y.size := by
  rw [size, size, units_congr h]

theorem cast_dist (m n : Nat) : (Nat.dist m n : ℚ) = |(m : ℚ) - n| := by
  rcases Nat.le_total m n with h | h
  · rw [Nat.dist_eq_sub_of_le h, Nat.cast_sub h, abs_sub_comm, abs_of_nonneg]
    exact sub_nonneg.2 (Nat.cast_le.2 h)
  · rw [Nat.dist_eq_sub_of_le_right h, Nat.cast_sub h, abs_of_nonneg]
    exact sub_nonneg.2 (Nat.cast_le.2 h)

theorem abs_sub_size (hd : 0 < den) (x : Binary64) :
    |(num / den : ℚ) - x.size| = gap num den x / (den * pow2 1074) := by
  have hden : (0 : ℚ) < den := Nat.cast_pos.2 hd
  have hpow := cast_pow2_pos 1074
  have hsub : (num / den : ℚ) - x.size =
      ((num * pow2 1074 : Nat) - (x.units * den : Nat) : ℚ) / (den * pow2 1074) := by
    rw [size, div_sub_div _ _ hden.ne' hpow.ne', Nat.cast_mul, Nat.cast_mul,
      mul_comm (x.units : ℚ)]
  rw [hsub, abs_div, abs_of_pos (mul_pos hden hpow), gap, cast_dist]

theorem abs_sub_size_le_iff (hd : 0 < den) :
    |(num / den : ℚ) - x.size| ≤ |(num / den : ℚ) - y.size| ↔ gap num den x ≤ gap num den y := by
  have hpos : (0 : ℚ) < den * pow2 1074 := mul_pos (Nat.cast_pos.2 hd) (cast_pow2_pos _)
  rw [abs_sub_size hd, abs_sub_size hd, div_le_div_iff_of_pos_right hpos, Nat.cast_le]

theorem overflow_le_iff (hd : 0 < den) : (pow2 1024 : ℚ) - pow2 970 ≤ num / den ↔
    (pow2 1024 - pow2 970) * den ≤ num := by
  have hsub : (pow2 1024 : ℚ) - pow2 970 = (pow2 1024 - pow2 970 : Nat) :=
    (Nat.cast_sub (pow2_le (by decide))).symm
  rw [hsub, le_div_iff₀ (Nat.cast_pos.2 hd), ← Nat.cast_mul, Nat.cast_le]

theorem isFinite_eq_false_iff (h : x.magnitude ≤ infinite) :
    x.isFinite = false ↔ x.magnitude = infinite := by
  rw [isFinite, decide_eq_false_iff_not]
  omega

theorem nearest_of_magnitude_eq (hd : 0 < den) (hx : x.magnitude = nearestMagnitude num den) :
    x.Nearest (num / den) := by
  have hle : x.magnitude ≤ infinite := hx ▸ nearestMagnitude_le num den
  refine ⟨?_, ?_, ?_, ?_⟩
  · rw [isNaN, decide_eq_false_iff_not]
    omega
  · rw [isFinite_eq_false_iff hle, overflow_le_iff hd, ← nearestMagnitude_eq_infinite_iff hd, hx]
  · intro _ y hy
    rw [abs_sub_size_le_iff hd]
    by_cases heq : y.magnitude = x.magnitude
    · rw [gap, gap, units_congr heq]
    · exact (gap_le_gap hd hx (Nat.le_of_lt (isFinite_iff.1 hy)) heq).1
  · intro _ y hy hne htie
    have heq : y.magnitude ≠ x.magnitude := fun heq => hne (size_congr heq)
    rw [← magnitude_mod_two]
    refine (gap_le_gap hd hx (Nat.le_of_lt (isFinite_iff.1 hy)) heq).2 (Nat.le_antisymm ?_ ?_)
    · exact (abs_sub_size_le_iff hd).1 htie.ge
    · exact (abs_sub_size_le_iff hd).1 htie.le

/-- Between two even magnitudes there is a third one, which is closer to what lies halfway. -/
theorem Nearest.not_lt (hx : x.Nearest r) (hy : y.Nearest r) : ¬ x.magnitude < y.magnitude := by
  intro hlt
  have hyle : y.magnitude ≤ infinite := by simpa [isNaN] using hy.number
  have hxfinite : x.isFinite = true := isFinite_iff.2 (Nat.lt_of_lt_of_le hlt hyle)
  have hyfinite : y.isFinite = true := by
    by_contra hinfinite
    rw [Bool.not_eq_true, hy.infinite_iff, ← hx.infinite_iff, hxfinite] at hinfinite
    cases hinfinite
  have hsize := size_lt_size hlt
  have htie : |r - y.size| = |r - x.size| :=
    le_antisymm (hy.closest hyfinite x hxfinite) (hx.closest hxfinite y hyfinite)
  have hxeven := hx.even hxfinite y hyfinite hsize.ne' htie
  have hyeven := hy.even hyfinite x hxfinite hsize.ne htie.symm
  rw [← magnitude_mod_two] at hxeven hyeven
  obtain ⟨z, hz⟩ := exists_magnitude_eq (Nat.le_trans hlt hyle)
  have hxz : x.size < z.size := size_lt_size (by omega)
  have hzy : z.size < y.size := size_lt_size (by omega)
  have hzfinite : z.isFinite = true := isFinite_iff.2 (by omega)
  have hmiddle : r - x.size = y.size - r := by
    rcases abs_eq_abs.1 htie with heq | heq
    · linarith
    · linarith
  have hcloser : |r - z.size| < |r - x.size| := by
    rw [abs_of_pos (by linarith : 0 < r - x.size), abs_lt]
    constructor <;> linarith
  exact absurd (hx.closest hxfinite z hzfinite) (not_le.2 hcloser)

theorem Nearest.unique (hx : x.Nearest r) (hy : y.Nearest r) : x.magnitude = y.magnitude :=
  Nat.le_antisymm (Nat.le_of_not_lt (hy.not_lt hx)) (Nat.le_of_not_lt (hx.not_lt hy))

theorem nearest_iff (hd : 0 < den) :
    x.Nearest (num / den) ↔ x.magnitude = nearestMagnitude num den := by
  constructor
  · intro h
    obtain ⟨y, hy⟩ := exists_magnitude_eq (nearestMagnitude_le num den)
    exact (h.unique (nearest_of_magnitude_eq hd hy)).trans hy
  · exact nearest_of_magnitude_eq hd

/-! ## Natural numbers -/

theorem nearest_ofNat_iff {n : Nat} : x.negative = false ∧ x.Nearest n ↔ x = ofNat n := by
  have hone : (n : ℚ) = n / (1 : Nat) := by rw [Nat.cast_one, div_one]
  rw [hone, nearest_iff Nat.one_pos, ← magnitude_ofNat]
  constructor
  · rintro ⟨hnegative, hmagnitude⟩
    exact ext_bits (hnegative.trans (whole_ofNat n).nonnegative.symm) hmagnitude
  · rintro rfl
    exact ⟨(whole_ofNat n).nonnegative, rfl⟩

theorem ofNat_eq_infinite_iff {n : Nat} :
    ofNat n = ofMagnitude infinite ↔ pow2 1024 - pow2 970 ≤ n := by
  have hinfinite : (ofMagnitude infinite).magnitude = infinite := magnitude_ofMagnitude infinite_lt
  rw [← Nat.mul_one (pow2 1024 - pow2 970), ← nearestMagnitude_eq_infinite_iff Nat.one_pos,
    ← magnitude_ofNat]
  constructor
  · intro h
    rw [h, hinfinite]
  · intro h
    refine ext_bits ?_ (h.trans hinfinite.symm)
    exact (whole_ofNat n).nonnegative.trans (negative_ofMagnitude infinite_lt).symm

theorem size_ofNat_le {m n : Nat} (h : m ≤ n) : (ofNat m).size ≤ (ofNat n).size := by
  apply size_le_size
  rw [magnitude_ofNat, magnitude_ofNat]
  exact nearestMagnitude_mono Nat.one_pos h

theorem size_ofNat {n : Nat} (h : n ≤ pow2 53) : (ofNat n).size = n := by
  rw [size, units_ofNat h, Nat.cast_mul, mul_div_cancel_right₀ _ (cast_pow2_pos 1074).ne']

theorem ofNat_eq_ofNat_iff {m n : Nat} (hm : m ≤ pow2 53) (hn : n ≤ pow2 53) :
    ofNat m = ofNat n ↔ m = n := by
  refine ⟨fun h => ?_, congrArg ofNat⟩
  have hsize := congrArg size h
  rwa [size_ofNat hm, size_ofNat hn, Nat.cast_inj] at hsize

end Binary64

end Scriptlet
