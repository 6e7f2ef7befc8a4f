import Scriptlet.Number.Notation

/-!
# Scriptlet.Proofs.Number.Rounding

What rounding to binary64 gives:

* `nearestMagnitude_congr`    — it depends on the quotient alone, not on its terms.
* `nearestMagnitude_of_units` — a quotient that is a finite number of the format is kept.
* `Binary64.Whole`            — infinity, and the natural numbers among the numbers of the format.

`whole_iff` says that these are the numbers to which natural numbers are rounded.
-/

namespace Scriptlet

theorem log2_eq {n k : Nat} (hlow : pow2 k ≤ n) (hhigh : n < pow2 (k + 1)) : n.log2 = k := by
  have hn : n ≠ 0 := Nat.ne_of_gt (Nat.lt_of_lt_of_le (pow2_pos k) hlow)
  exact (Nat.log2_eq_iff hn).2 ⟨hlow, hhigh⟩

theorem log2_mul_pow2 {n : Nat} (hn : n ≠ 0) (k : Nat) : (n * pow2 k).log2 = n.log2 + k := by
  have hlow : pow2 n.log2 ≤ n := Nat.log2_self_le hn
  have hhigh : n < pow2 (n.log2 + 1) := Nat.lt_log2_self
  apply log2_eq
  · rw [pow2_add]
    exact Nat.mul_le_mul_right (pow2 k) hlow
  · rw [Nat.add_right_comm, pow2_add]
    exact Nat.mul_lt_mul_of_pos_right hhigh (pow2_pos k)

/-! ## Rounding a quotient -/

theorem roundHalfEven_mul (num den : Nat) {k : Nat} (hk : 0 < k) :
    roundHalfEven (num * k) (den * k) = roundHalfEven num den := by
  have htwice : 2 * (num % den * k) = 2 * (num % den) * k := (Nat.mul_assoc _ _ _).symm
  simp only [roundHalfEven, Nat.mul_div_mul_right _ _ hk, Nat.mul_mod_mul_right, htwice,
    Nat.mul_lt_mul_right hk]

theorem roundHalfEven_exact (q : Nat) {den : Nat} (hd : 0 < den) :
    roundHalfEven (q * den) den = q := by
  simp [roundHalfEven, Nat.mul_div_cancel q hd, hd]

/-- A quotient is rounded to one of the two natural numbers around it. -/
theorem roundHalfEven_bounds (num den : Nat) :
    num / den ≤ roundHalfEven num den ∧ roundHalfEven num den ≤ num / den + 1 := by
  simp only [roundHalfEven]
  repeat' split
  all_goals omega

/-! ## Rounding to the format -/

theorem nearestMagnitude_mul (num den : Nat) {k : Nat} (hk : 0 < k) :
    nearestMagnitude (num * k) (den * k) = nearestMagnitude num den := by
  have hscaled : num * k * pow2 1074 = num * pow2 1074 * k := Nat.mul_right_comm _ _ _
  have hden : ∀ p, den * k * p = den * p * k := fun p => Nat.mul_right_comm _ _ _
  simp only [nearestMagnitude, hscaled, hden, Nat.mul_div_mul_right _ _ hk,
    roundHalfEven_mul _ _ hk]

theorem nearestMagnitude_congr {num den num' den' : Nat} (hd : 0 < den) (hd' : 0 < den')
    (h : num * den' = num' * den) : nearestMagnitude num den = nearestMagnitude num' den' := by
  calc nearestMagnitude num den
      = nearestMagnitude (num * den') (den * den') := (nearestMagnitude_mul num den hd').symm
    _ = nearestMagnitude (num' * den) (den' * den) := by rw [h, Nat.mul_comm den]
    _ = nearestMagnitude num' den' := nearestMagnitude_mul num' den' hd

/-- A significand of fifty-three digits, the first of them zero at the first place only, is kept. -/
theorem nearestMagnitude_exact {num den m p : Nat} (hd : 0 < den) (hm : m < pow2 53)
    (hp : p = 0 ∨ pow2 52 ≤ m) (h : num * pow2 1074 = m * pow2 p * den) :
    nearestMagnitude num den = min (p * pow2 52 + m) Binary64.infinite := by
  have hplaces : Nat.log2 (m * pow2 p) - 52 = p := by
    rcases hp with rfl | hlow
    · rw [pow2_zero, Nat.mul_one]
      rcases Nat.eq_zero_or_pos m with rfl | hpos
      · rfl
      · have hlog : m.log2 < 53 := (Nat.log2_lt (Nat.ne_of_gt hpos)).2 hm
        omega
    · have hne : m ≠ 0 := Nat.ne_of_gt (Nat.lt_of_lt_of_le (pow2_pos 52) hlow)
      rw [log2_mul_pow2 hne, log2_eq hlow hm]
      omega
  have hquotient : num * pow2 1074 / den = m * pow2 p := by rw [h, Nat.mul_div_cancel _ hd]
  have hround : roundHalfEven (num * pow2 1074) (den * pow2 p) = m := by
    rw [h, Nat.mul_assoc, Nat.mul_comm (pow2 p)]
    exact roundHalfEven_exact m (Nat.mul_pos hd (pow2_pos p))
  simp only [nearestMagnitude, hquotient, hplaces, hround]

/-- From `2 ^ 52` units on, a quotient is rounded to a significand of fifty-three digits. -/
theorem nearestMagnitude_normal {num den : Nat} (h : pow2 52 ≤ num * pow2 1074 / den) :
    ∃ p q, q = roundHalfEven (num * pow2 1074) (den * pow2 p) ∧
      pow2 52 ≤ num * pow2 1074 / (den * pow2 p) ∧ q ≤ pow2 53 ∧
      nearestMagnitude num den = min (p * pow2 52 + q) Binary64.infinite := by
  obtain ⟨s, hs⟩ : ∃ s, num * pow2 1074 / den = s := ⟨_, rfl⟩
  rw [hs] at h
  have hne : s ≠ 0 := Nat.ne_of_gt (Nat.lt_of_lt_of_le (pow2_pos 52) h)
  obtain ⟨p, hp⟩ : ∃ p, s.log2 = p + 52 :=
    ⟨s.log2 - 52, by have := (Nat.le_log2 hne).2 h; omega⟩
  have hlow : pow2 (p + 52) ≤ s := hp ▸ Nat.log2_self_le hne
  have hhigh : s < pow2 (p + 53) := by
    have := Nat.lt_log2_self (n := s)
    rwa [hp] at this
  have hbounds := roundHalfEven_bounds (num * pow2 1074) (den * pow2 p)
  have hquotient : num * pow2 1074 / (den * pow2 p) = s / pow2 p := by
    rw [← Nat.div_div_eq_div_mul, hs]
  have hq52 : pow2 52 ≤ s / pow2 p := by
    rw [Nat.le_div_iff_mul_le (pow2_pos p), ← pow2_add, Nat.add_comm]
    exact hlow
  have hq53 : s / pow2 p < pow2 53 := by
    rw [Nat.div_lt_iff_lt_mul (pow2_pos p), ← pow2_add, Nat.add_comm]
    exact hhigh
  refine ⟨p, _, rfl, by rwa [hquotient], by omega, ?_⟩
  simp only [nearestMagnitude, hs, hp, Nat.add_sub_cancel]

namespace Binary64

theorem magnitude_eq (x : Binary64) : x.magnitude = x.shift * pow2 52 + x.significand := by
  have hdiv : pow2 52 * x.exponentField + x.fraction = x.magnitude := Nat.div_add_mod _ _
  simp only [significand, shift]
  split
  · simp_all
  · obtain ⟨e, he⟩ : ∃ e, x.exponentField = e + 1 := ⟨x.exponentField - 1, by omega⟩
    rw [he, Nat.mul_comm, Nat.succ_mul] at hdiv
    rw [he, Nat.add_sub_cancel]
    omega

theorem significand_lt (x : Binary64) : x.significand < pow2 53 := by
  have hfraction : x.fraction < pow2 52 := Nat.mod_lt _ (pow2_pos 52)
  have hdouble : pow2 53 = pow2 52 * 2 := rfl
  simp only [significand]
  split <;> omega

theorem significand_normal (x : Binary64) : x.shift = 0 ∨ pow2 52 ≤ x.significand := by
  simp only [significand, shift]
  split
  · left
    omega
  · right
    omega

theorem isFinite_iff {x : Binary64} : x.isFinite = true ↔ x.magnitude < infinite := by
  simp [isFinite]

theorem negative_ofMagnitude {n : Nat} (h : n < pow2 63) : (ofMagnitude n).negative = false := by
  have h64 : (UInt64.ofNat n).toNat = n :=
    UInt64.toNat_ofNat_of_lt' (Nat.lt_trans h (by decide +kernel))
  simp [negative, ofMagnitude, h64, h]

theorem infinite_lt : infinite < pow2 63 := by decide +kernel

theorem toNat_bits (x : Binary64) :
    x.bits.toNat = x.magnitude + if x.negative then pow2 63 else 0 := by
  have hlt : x.bits.toNat < pow2 63 * 2 := x.bits.toNat_lt
  simp only [magnitude, negative, decide_eq_true_eq]
  split
  · rw [Nat.mod_eq_sub_mod (by assumption), Nat.mod_eq_of_lt (by omega)]
    omega
  · rw [Nat.mod_eq_of_lt (by omega)]
    omega

theorem ext_bits {x y : Binary64} (hn : x.negative = y.negative)
    (hm : x.magnitude = y.magnitude) : x = y := by
  have hbits : x.bits.toNat = y.bits.toNat := by rw [x.toNat_bits, y.toNat_bits, hn, hm]
  obtain ⟨a⟩ := x
  obtain ⟨b⟩ := y
  exact congrArg Binary64.mk (UInt64.toNat_inj.1 hbits)

end Binary64

/-- A quotient that is a finite number of the format is rounded to that number. -/
theorem nearestMagnitude_of_units {x : Binary64} (hx : x.isFinite = true) {num den : Nat}
    (hd : 0 < den) (h : num * pow2 1074 = x.units * den) :
    nearestMagnitude num den = x.magnitude := by
  rw [nearestMagnitude_exact hd x.significand_lt x.significand_normal h, ← x.magnitude_eq]
  exact Nat.min_eq_left (Nat.le_of_lt (Binary64.isFinite_iff.1 hx))

/-! ## Natural numbers -/

theorem nearestMagnitude_le (num den : Nat) : nearestMagnitude num den ≤ Binary64.infinite :=
  Nat.min_le_right _ _

namespace Binary64

/-- A significand that has been rounded up to `2 ^ 53` stands for one at the next place. Below
`2 ^ 52` there are significands at the first place only. -/
theorem units_eq {x : Binary64} {p q : Nat} (hmagnitude : x.magnitude = p * pow2 52 + q)
    (hlow : p = 0 ∨ pow2 52 ≤ q) (hhigh : q ≤ pow2 53) : x.units = q * pow2 p := by
  have hdouble : pow2 53 = pow2 52 + pow2 52 := by decide
  have hpos := pow2_pos 52
  rcases Nat.lt_or_ge q (pow2 52) with hsmall | hlow
  · obtain rfl : p = 0 := by omega
    rw [Nat.zero_mul, Nat.zero_add] at hmagnitude
    have hfield : x.exponentField = 0 := by rw [exponentField, hmagnitude, Nat.div_eq_of_lt hsmall]
    have hfraction : x.fraction = q := by rw [fraction, hmagnitude, Nat.mod_eq_of_lt hsmall]
    simp [units, significand, shift, hfield, hfraction]
  rcases Nat.lt_or_ge q (pow2 53) with hlt | hge
  · obtain ⟨f, rfl⟩ := Nat.exists_eq_add_of_le hlow
    have hf : f < pow2 52 := by omega
    have hsplit : p * pow2 52 + (pow2 52 + f) = f + pow2 52 * (p + 1) := by
      rw [Nat.mul_succ, Nat.mul_comm p]
      omega
    have hfield : x.exponentField = p + 1 := by
      rw [exponentField, hmagnitude, hsplit, Nat.add_mul_div_left _ _ hpos, Nat.div_eq_of_lt hf]
      omega
    have hfraction : x.fraction = f := by
      rw [fraction, hmagnitude, hsplit, Nat.add_mul_mod_self_left, Nat.mod_eq_of_lt hf]
    simp [units, significand, shift, hfield, hfraction]
  · obtain rfl : q = pow2 53 := Nat.le_antisymm hhigh hge
    have hsplit : p * pow2 52 + pow2 53 = 0 + pow2 52 * (p + 2) := by
      rw [hdouble, Nat.mul_add, Nat.mul_comm p]
      omega
    have hfield : x.exponentField = p + 2 := by
      rw [exponentField, hmagnitude, hsplit, Nat.add_mul_div_left _ _ hpos, Nat.zero_div]
      omega
    have hfraction : x.fraction = 0 := by
      rw [fraction, hmagnitude, hsplit, Nat.add_mul_mod_self_left, Nat.zero_mod]
    have hshift : x.shift = p + 1 := by
      rw [shift, hfield]
      rfl
    simp only [units, significand, hfield, hfraction, hshift, pow2_succ p, hdouble]
    grind

structure Whole (x : Binary64) : Prop where
  nonnegative : x.negative = false
  integral : x.magnitude = infinite ∨ x.isFinite = true ∧ pow2 1074 ∣ x.units

theorem magnitude_ofNat (n : Nat) : (ofNat n).magnitude = nearestMagnitude n 1 :=
  magnitude_ofMagnitude (Nat.lt_of_le_of_lt (nearestMagnitude_le n 1) infinite_lt)

/-- A natural number is rounded to a multiple of one. -/
theorem pow2_dvd_units_ofNat {n : Nat} (h : nearestMagnitude n 1 < infinite) :
    pow2 1074 ∣ (ofNat n).units := by
  rcases Nat.eq_zero_or_pos n with rfl | hpos
  · have hzero : (ofNat 0).units = 0 := by decide +kernel
    rw [hzero]
    exact Nat.dvd_zero _
  · have hnormal : pow2 52 ≤ n * pow2 1074 / 1 := by
      rw [Nat.div_one]
      exact Nat.le_trans (pow2_le (by decide)) (Nat.le_mul_of_pos_left _ hpos)
    obtain ⟨p, q, hq, hquotient, hhigh, hmagnitude⟩ := nearestMagnitude_normal hnormal
    have hlow : pow2 52 ≤ q := by
      rw [hq]
      exact Nat.le_trans hquotient (roundHalfEven_bounds _ _).1
    rw [Nat.one_mul] at hq
    rw [hmagnitude] at h
    have hofNat : (ofNat n).magnitude = p * pow2 52 + q := by
      rw [magnitude_ofNat, hmagnitude]
      omega
    rw [units_eq hofNat (.inr hlow) hhigh]
    -- With up to fifty-three digits a number is kept; with more of them the places are whole.
    rcases Nat.le_total p 1074 with hle | hge
    · have hexact : q = n * pow2 (1074 - p) := by
        have hsplit : pow2 1074 = pow2 (1074 - p) * pow2 p := by
          rw [← pow2_add, Nat.sub_add_cancel hle]
        rw [hq, hsplit, ← Nat.mul_assoc]
        exact roundHalfEven_exact _ (pow2_pos p)
      refine ⟨n, ?_⟩
      rw [hexact, Nat.mul_assoc, ← pow2_add, Nat.sub_add_cancel hle, Nat.mul_comm]
    · refine ⟨q * pow2 (p - 1074), ?_⟩
      rw [Nat.mul_left_comm, ← pow2_add, Nat.add_sub_cancel' hge]

theorem whole_ofNat (n : Nat) : (ofNat n).Whole := by
  refine ⟨negative_ofMagnitude (Nat.lt_of_le_of_lt (nearestMagnitude_le n 1) infinite_lt), ?_⟩
  rw [isFinite_iff, magnitude_ofNat]
  rcases Nat.lt_or_eq_of_le (nearestMagnitude_le n 1) with hlt | heq
  · exact .inr ⟨hlt, pow2_dvd_units_ofNat hlt⟩
  · exact .inl heq

/-- A natural number that is rounded to a whole number. -/
def Whole.preimage (x : Binary64) : Nat :=
  if x.isFinite then x.units / pow2 1074 else pow2 1024

theorem Whole.ofNat_preimage {x : Binary64} (h : x.Whole) : ofNat (preimage x) = x := by
  apply ext_bits
  · rw [h.nonnegative, (whole_ofNat _).nonnegative]
  · rw [magnitude_ofNat, preimage]
    rcases h.integral with hinf | ⟨hfinite, hdvd⟩
    · have hx : ¬ x.isFinite = true := by
        rw [isFinite_iff, hinf]
        exact Nat.lt_irrefl _
      rw [if_neg hx, hinf]
      decide +kernel
    · rw [if_pos hfinite]
      refine nearestMagnitude_of_units hfinite Nat.one_pos ?_
      rw [Nat.div_mul_cancel hdvd, Nat.mul_one]

theorem whole_iff {x : Binary64} : x.Whole ↔ ∃ n, ofNat n = x := by
  constructor
  · intro h
    exact ⟨Whole.preimage x, h.ofNat_preimage⟩
  · rintro ⟨n, rfl⟩
    exact whole_ofNat n

theorem whole_of_read {cs : List Char} {x : Binary64} (h : read cs = some x) : x.Whole := by
  unfold read at h
  split at h
  · cases h
    exact whole_ofNat _
  · cases h

/-- Whole numbers are equal only if they are the same. -/
theorem Whole.equal_iff {x y : Binary64} (hx : x.Whole) (hy : y.Whole) :
    x.equal y = true ↔ x = y := by
  have hnumber : ∀ {z : Binary64}, z.Whole → z.isNaN = false := by
    intro z hz
    rw [isNaN, decide_eq_false_iff_not]
    rcases hz.integral with hinf | ⟨hfinite, -⟩
    · omega
    · have := isFinite_iff.1 hfinite
      omega
  have hzero : x.magnitude = 0 ∧ y.magnitude = 0 → x = y := fun h =>
    ext_bits (hx.nonnegative.trans hy.nonnegative.symm) (h.1.trans h.2.symm)
  have hbits : x.bits = y.bits ↔ x = y := by
    obtain ⟨a⟩ := x
    obtain ⟨b⟩ := y
    simp
  simp only [equal, hnumber hx, hnumber hy, Bool.not_false, Bool.true_and, Bool.or_eq_true,
    Bool.and_eq_true, beq_iff_eq, hbits]
  exact ⟨fun h => h.elim id hzero, .inl⟩

end Binary64

/-! ## Digits -/

theorem isDigit_digitChars {ds : List Nat} (h : ∀ d ∈ ds, d < 10) :
    ∀ c ∈ digitChars ds, isDigit c = true := by
  intro c hc
  obtain ⟨d, hd, rfl⟩ := List.mem_map.1 hc
  exact isDigit_digitChar (h d hd)

theorem isDigit_natText (n : Nat) : ∀ c ∈ natText n, isDigit c = true :=
  isDigit_digitChars (toDigits_lt n)

theorem natText_ne_nil (n : Nat) : natText n ≠ [] := by
  simpa [natText, digitChars] using toDigits_ne_nil n

theorem map_digitValue {ds : List Nat} (h : ∀ d ∈ ds, d < 10) :
    (digitChars ds).map digitValue = ds := by
  rw [digitChars, List.map_map, List.map_congr_left (g := id), List.map_id]
  exact fun d hd => digitValue_digitChar (h d hd)

theorem ofDigits_natText (n : Nat) : ofDigits ((natText n).map digitValue) = n := by
  rw [natText, map_digitValue (toDigits_lt n), ofDigits_toDigits]

theorem read_natText (n : Nat) : Binary64.read (natText n) = some (Binary64.ofNat n) := by
  rw [Binary64.read_digits (natText_ne_nil n) (isDigit_natText n), ofDigits_natText]

end Scriptlet
