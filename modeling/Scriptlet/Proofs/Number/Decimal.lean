import Scriptlet.Proofs.Number.Rounding

/-!
# Scriptlet.Proofs.Number.Decimal

The digits that are written for a number stand for it:

* `nearestDecimal n power`  — the magnitude nearest to `n × 10 ^ power`.
* `Decimal.power`           — the power of ten of the last digit.
* `Decimal.Proper`          — there is a first digit, and it is not zero.

`decimal_spec` says that the decimal of a positive finite number is proper and that the number is
the nearest one to it, whichever of the candidates it is.
-/

namespace Scriptlet

def nearestDecimal (n : Nat) (power : Int) : Nat :=
  nearestMagnitude (n * pow10 power.toNat) (pow10 (-power).toNat)

/-- A power of ten may be split between numerator and denominator in any way. -/
theorem nearestDecimal_eq (n a b : Nat) :
    nearestDecimal n (a - b) = nearestMagnitude (n * pow10 a) (pow10 b) := by
  refine nearestMagnitude_congr (pow10_pos _) (pow10_pos b) ?_
  rw [Nat.mul_assoc, Nat.mul_assoc, ← pow10_add, ← pow10_add]
  congr 2
  omega

theorem nearestDecimal_mul (n j : Nat) (power : Int) :
    nearestDecimal (n * pow10 j) power = nearestDecimal n (power + j) := by
  have hpower : power + j = ((j + power.toNat : Nat) : Int) - ((-power).toNat : Nat) := by omega
  rw [hpower, nearestDecimal_eq, nearestDecimal, Nat.mul_assoc, ← pow10_add]

theorem nearestMagnitude_zero (den : Nat) : nearestMagnitude 0 den = 0 := by
  simp [nearestMagnitude, roundHalfEven]

theorem nearestDecimal_zero (power : Int) : nearestDecimal 0 power = 0 := by
  rw [nearestDecimal, Nat.zero_mul, nearestMagnitude_zero]

/-! ## Digits without zeros at their ends -/

theorem head?_digitsBefore {n : Nat} (hn : n ≠ 0) (ds : List Nat) :
    (digitsBefore n ds).head? ≠ some 0 := by
  fun_induction digitsBefore n ds with
  | case1 n ds _ => simpa using hn
  | case2 n ds hlarge ih => exact ih (by omega)

theorem ofDigits_replicate_zero (k : Nat) : ofDigits (List.replicate k 0) = 0 := by
  induction k with
  | zero => rfl
  | succ k ih => rw [List.replicate_succ, ofDigits_cons, ih, Nat.zero_mul]

namespace Decimal

def power (d : Decimal) : Int := d.exponent + 1 - d.digits.length

structure Proper (ds : List Nat) : Prop where
  ne_nil : ds ≠ []
  head : ds.head? ≠ some 0
  digits : ∀ d ∈ ds, d < 10

theorem dropZeros_append (ds : List Nat) :
    ∃ k, ds = dropZeros ds ++ List.replicate k 0 := by
  have hzeros : ∀ d ∈ ds.reverse.takeWhile (· = 0), d = 0 := by
    intro d hd
    simpa using List.all_eq_true.1 List.all_takeWhile d hd
  refine ⟨(ds.reverse.takeWhile (· = 0)).length, ?_⟩
  have hsplit := congrArg List.reverse
    (List.takeWhile_append_dropWhile (p := (· = 0)) (l := ds.reverse))
  rw [List.reverse_append, List.reverse_reverse, List.eq_replicate_of_mem hzeros,
    List.reverse_replicate] at hsplit
  exact hsplit.symm

theorem proper_dropZeros {ds : List Nat} (h : Proper ds) : Proper (dropZeros ds) := by
  obtain ⟨k, hk⟩ := dropZeros_append ds
  have hne : dropZeros ds ≠ [] := by
    intro hnil
    rw [hnil, List.nil_append] at hk
    cases k with
    | zero => exact h.ne_nil hk
    | succ k => exact h.head (by rw [hk]; rfl)
  refine ⟨hne, ?_, fun d hd => h.digits d ?_⟩
  · intro hhead
    apply h.head
    rw [hk, List.head?_append, hhead]
    rfl
  · rw [hk]
    exact List.mem_append_left _ hd

theorem proper_toDigits {n : Nat} (hn : n ≠ 0) : Proper (toDigits n) :=
  ⟨toDigits_ne_nil n, head?_digitsBefore hn [], toDigits_lt n⟩

theorem proper_ofScaled {n : Nat} (hn : n ≠ 0) (power : Int) : Proper (ofScaled n power).digits :=
  proper_dropZeros (proper_toDigits hn)

/-- Zeros at the end of the digits are made up for by the exponent. -/
theorem nearestDecimal_ofScaled (n : Nat) (power : Int) :
    nearestDecimal (ofDigits (ofScaled n power).digits) (ofScaled n power).power =
      nearestDecimal n power := by
  obtain ⟨k, hk⟩ := dropZeros_append (toDigits n)
  have hn : n = ofDigits (dropZeros (toDigits n)) * pow10 k := by
    have := congrArg ofDigits hk
    rwa [ofDigits_append, ofDigits_replicate_zero, ofDigits_toDigits, List.length_replicate] at this
  have hlength : (toDigits n).length = (dropZeros (toDigits n)).length + k := by
    have := congrArg List.length hk
    rwa [List.length_append, List.length_replicate] at this
  have hpower : (ofScaled n power).power = power + k := by
    simp only [Decimal.power, ofScaled]
    omega
  rw [hpower, ← nearestDecimal_mul]
  exact congrArg (nearestDecimal · power) hn.symm

end Decimal

/-! ## The decimal of a number -/

namespace Binary64

variable {x : Binary64}

theorem nearestDecimal_of_readsBack {n dropped : Nat} (h : x.readsBack n dropped = true) :
    nearestDecimal n (dropped - x.places) = x.magnitude := by
  rw [nearestDecimal_eq]
  simpa [readsBack] using h

theorem roundHalfEven_eq_or (num den : Nat) :
    roundHalfEven num den = num / den ∨ roundHalfEven num den = num / den + 1 := by
  have := roundHalfEven_bounds num den
  omega

theorem candidate?_eq_some {dropped : Nat} {d : Decimal} (h : x.candidate? dropped = some d) :
    ∃ n, d = Decimal.ofScaled n (dropped - x.places) ∧ x.readsBack n dropped = true := by
  have hround := roundHalfEven_eq_or x.expansion (pow10 dropped)
  simp only [candidate?] at h
  split at h
  · rename_i hbelow
    split at h
    · rename_i habove
      refine ⟨_, (Option.some.inj h).symm, ?_⟩
      rcases hround with heq | heq
      · rw [heq, hbelow]
      · rw [heq, habove]
    · exact ⟨_, (Option.some.inj h).symm, hbelow⟩
  · split at h
    · rename_i habove
      exact ⟨_, (Option.some.inj h).symm, habove⟩
    · cases h

/-- The whole expansion is the number itself. -/
theorem nearestDecimal_expansion (hx : x.isFinite = true) :
    nearestDecimal x.expansion (-(x.places : Int)) = x.magnitude := by
  have hpower : -(x.places : Int) = ((0 : Nat) : Int) - x.places := by omega
  rw [hpower, nearestDecimal_eq, pow10_zero, Nat.mul_one]
  refine nearestMagnitude_of_units hx (pow10_pos _) ?_
  have hplaces : x.shift - 1074 + 1074 = x.shift + x.places := by
    rw [places]
    omega
  have hshift : pow2 (x.shift - 1074) * pow2 1074 = pow2 x.shift * pow2 x.places := by
    rw [← pow2_add, ← pow2_add, hplaces]
  calc x.expansion * pow2 1074
      = x.significand * (pow2 (x.shift - 1074) * pow2 1074) * pow5 x.places := by
        rw [expansion, Nat.mul_right_comm, Nat.mul_assoc x.significand]
    _ = x.units * pow10 x.places := by
        rw [hshift, units, pow10_eq, ← Nat.mul_assoc, ← Nat.mul_assoc]

theorem exists_decimal_eq (hx : x.isFinite = true) :
    ∃ n power, x.decimal = Decimal.ofScaled n power ∧ nearestDecimal n power = x.magnitude := by
  rw [decimal]
  cases hfind : (List.range 17).findSome? fun n =>
      x.candidate? ((toDigits x.expansion).length - (n + 1)) with
  | none => exact ⟨_, _, rfl, nearestDecimal_expansion hx⟩
  | some d =>
    obtain ⟨_, -, hd⟩ := List.exists_of_findSome?_eq_some hfind
    obtain ⟨n, rfl, hback⟩ := candidate?_eq_some hd
    exact ⟨n, _, rfl, nearestDecimal_of_readsBack hback⟩

theorem units_eq_zero_iff : x.units = 0 ↔ x.magnitude = 0 := by
  have hmagnitude := x.magnitude_eq
  have hnormal := x.significand_normal
  have hpos := pow2_pos 52
  rw [units, Nat.mul_eq_zero, or_iff_left (Nat.ne_of_gt (pow2_pos _))]
  constructor
  · intro hzero
    rcases hnormal with hshift | hlow
    · rw [hmagnitude, hshift, hzero, Nat.zero_mul]
    · omega
  · omega

/-- The decimal of a positive number has digits, and the number is the nearest to it. -/
theorem decimal_spec (hx : x.isFinite = true) (hpos : x.units ≠ 0) :
    Decimal.Proper x.decimal.digits ∧
      nearestDecimal (ofDigits x.decimal.digits) x.decimal.power = x.magnitude := by
  obtain ⟨n, power, hdecimal, hnearest⟩ := exists_decimal_eq hx
  have hn : n ≠ 0 := by
    rintro rfl
    rw [nearestDecimal_zero] at hnearest
    exact hpos (units_eq_zero_iff.2 hnearest.symm)
  rw [hdecimal, Decimal.nearestDecimal_ofScaled]
  exact ⟨Decimal.proper_ofScaled hn power, hnearest⟩

end Binary64

end Scriptlet
