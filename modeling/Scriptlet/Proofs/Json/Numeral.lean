import Scriptlet.Proofs.Json.Reader
import Scriptlet.Proofs.Scan.Trivia

/-!
# Scriptlet.Proofs.Json.Numeral

The text of a finite number is read as that number.

* `Numeral`               — digits before the point, digits after it, and an exponent.
* `readScaled_numeral`    — a well-formed numeral is read whole.
* `Decimal.numeral`       — the numeral that a decimal is written as, in each of the notations.

`readScaled_text` puts them together: the numeral of a number has the value of its decimal, and the
number is the nearest to that.
-/

namespace Scriptlet

structure Numeral where
  whole : List Nat
  fraction : List Nat
  exponent : Option Int

namespace Numeral

def fractionText (fraction : List Nat) : List Char :=
  if fraction.isEmpty then [] else '.' :: digitChars fraction

def exponentText : Option Int → List Char
  | none => []
  | some e => 'e' :: (if 0 ≤ e then '+' else '-') :: natText e.natAbs

def text (m : Numeral) : List Char :=
  digitChars m.whole ++ (fractionText m.fraction ++ exponentText m.exponent)

def digits (m : Numeral) : List Nat := m.whole ++ m.fraction

def power (m : Numeral) : Int := m.exponent.getD 0 - m.fraction.length

structure WellFormed (m : Numeral) : Prop where
  ne_nil : m.whole ≠ []
  leading : m.whole.head? = some 0 → m.whole.length = 1
  digits : ∀ d ∈ m.digits, d < 10

end Numeral

namespace Json

/-- A text with which no number goes on. -/
def Delimited (rest : List Char) : Prop :=
  ∀ c ∈ rest.head?, isDigit c = false ∧ c ≠ '.' ∧ c ≠ 'e' ∧ c ≠ 'E'

theorem digitsOf_append {ds rest : List Char} (hds : ∀ c ∈ ds, isDigit c = true)
    (hrest : ∀ c ∈ rest.head?, isDigit c = false) :
    digitsOf (ds ++ rest) = ds ∧ afterDigits (ds ++ rest) = rest :=
  span_append hds hrest

/-! ## Reading a numeral -/

theorem readExponent_exponentText {rest : List Char} (hrest : Delimited rest) (e : Option Int) :
    readExponent (Numeral.exponentText e ++ rest) = some (e.getD 0, rest) := by
  cases e with
  | none =>
    cases rest with
    | nil => rfl
    | cons c cs =>
      obtain ⟨-, -, he, hE⟩ := hrest c rfl
      simp [Numeral.exponentText, readExponent, he, hE]
  | some e =>
    obtain ⟨hdigits, hafter⟩ := digitsOf_append (isDigit_natText e.natAbs) fun c hc =>
      (hrest c hc).1
    have hne : (natText e.natAbs).isEmpty = false := by simpa using natText_ne_nil e.natAbs
    by_cases hsign : 0 ≤ e
    · have hvalue : 1 * (e.natAbs : Int) = e := by omega
      simp only [Numeral.exponentText, readExponent, if_pos hsign, List.cons_append, decide_true,
        Bool.true_or, if_true, hdigits, hafter, hne, ofDigits_natText, hvalue]
      rfl
    · have hvalue : -1 * (e.natAbs : Int) = e := by omega
      simp only [Numeral.exponentText, readExponent, if_neg hsign, List.cons_append, decide_true,
        Bool.true_or, if_true, hdigits, hafter, hne, ofDigits_natText, hvalue]
      rfl

theorem head?_exponentText {rest : List Char} (hrest : Delimited rest) (e : Option Int) :
    ∀ c ∈ (Numeral.exponentText e ++ rest).head?, isDigit c = false ∧ c ≠ '.' := by
  cases e with
  | none => exact fun c hc => ⟨(hrest c hc).1, (hrest c hc).2.1⟩
  | some e =>
    rintro c ⟨⟩
    decide

theorem readFraction_fractionText {fraction : List Nat} (h : ∀ d ∈ fraction, d < 10)
    {rest : List Char} (hrest : ∀ c ∈ rest.head?, isDigit c = false ∧ c ≠ '.') :
    readFraction (Numeral.fractionText fraction ++ rest) = some (digitChars fraction, rest) := by
  cases fraction with
  | nil =>
    have hnil : Numeral.fractionText [] ++ rest = rest := rfl
    rw [hnil]
    unfold readFraction
    split
    · exact absurd rfl (hrest '.' rfl).2
    · rfl
  | cons d ds =>
    obtain ⟨hdigits, hafter⟩ := digitsOf_append (isDigit_digitChars h) fun c hc => (hrest c hc).1
    have hdot : Numeral.fractionText (d :: ds) ++ rest = '.' :: (digitChars (d :: ds) ++ rest) :=
      rfl
    have hne : digitChars (d :: ds) ≠ [] := by simp [digitChars]
    simp [hdot, readFraction, hdigits, hafter, hne]

theorem head?_fractionText (fraction : List Nat) {rest : List Char}
    (hrest : ∀ c ∈ rest.head?, isDigit c = false) :
    ∀ c ∈ (Numeral.fractionText fraction ++ rest).head?, isDigit c = false := by
  cases fraction with
  | nil => exact hrest
  | cons d ds =>
    rintro c ⟨⟩
    decide

theorem isWhole_digitChars {whole : List Nat} (hne : whole ≠ [])
    (hlead : whole.head? = some 0 → whole.length = 1) (h : ∀ d ∈ whole, d < 10) :
    isWhole (digitChars whole) = true := by
  cases whole with
  | nil => exact absurd rfl hne
  | cons d ds =>
    have hzero : digitChar d = '0' → d = 0 := by
      intro heq
      have := digitValue_digitChar (h d List.mem_cons_self)
      rw [heq] at this
      exact this.symm
    by_cases hd : d = 0
    · subst hd
      obtain rfl : ds = [] := by simpa using hlead rfl
      decide
    · have hne' : digitChar d ≠ '0' := fun heq => hd (hzero heq)
      simp [isWhole, digitChars, hne']

theorem readSign_append (negative : Bool) {whole : List Nat} (hne : whole ≠ [])
    (h : ∀ d ∈ whole, d < 10) (rest : List Char) :
    readSign ((if negative then ['-'] else []) ++ (digitChars whole ++ rest)) =
      (negative, digitChars whole ++ rest) := by
  cases negative with
  | true => rfl
  | false =>
    cases whole with
    | nil => exact absurd rfl hne
    | cons d ds =>
      have hdigit := isDigit_digitChar (h d List.mem_cons_self)
      have hsign : digitChar d ≠ '-' := by
        intro heq
        rw [heq] at hdigit
        exact absurd hdigit (by decide)
      simp only [Bool.false_eq_true, if_false, List.nil_append, digitChars, List.map_cons,
        List.cons_append, readSign]
      split
      · rename_i heq
        exact absurd (List.cons.inj heq).1 hsign
      · rfl

theorem readScaled_numeral {m : Numeral} (h : m.WellFormed) (negative : Bool) {rest : List Char}
    (hrest : Delimited rest) :
    readScaled ((if negative then ['-'] else []) ++ (m.text ++ rest)) =
      some (⟨negative, ofDigits m.digits, m.power⟩, rest) := by
  obtain ⟨hne, hlead, hdigits⟩ := h
  have hwhole : ∀ d ∈ m.whole, d < 10 := fun d hd => hdigits d (List.mem_append_left _ hd)
  have hfraction : ∀ d ∈ m.fraction, d < 10 := fun d hd => hdigits d (List.mem_append_right _ hd)
  have hexponent := head?_exponentText hrest m.exponent
  obtain ⟨hrun, hafter⟩ := digitsOf_append (isDigit_digitChars hwhole)
    (head?_fractionText m.fraction fun c hc => (hexponent c hc).1)
  have hvalues : (digitChars m.whole ++ digitChars m.fraction).map digitValue = m.digits := by
    rw [List.map_append, map_digitValue hwhole, map_digitValue hfraction, Numeral.digits]
  rw [Numeral.text, List.append_assoc, List.append_assoc]
  simp only [readScaled, readSign_append negative hne hwhole, hrun, hafter,
    isWhole_digitChars hne hlead hwhole, readFraction_fractionText hfraction hexponent,
    readExponent_exponentText hrest, hvalues, if_true, Option.bind_some, Option.map_some]
  simp only [Numeral.power, digitChars, List.length_map]

end Json

/-! ## The numeral of a decimal -/

namespace Decimal

/-- Plain notation with `before` digits before the point. -/
def wholeNumeral (ds : List Nat) (before : Nat) : Numeral :=
  { whole := ds.take before ++ List.replicate (before - (ds.take before).length) 0
    fraction := if (ds.drop before).isEmpty then [0] else ds.drop before
    exponent := none }

/-- Plain notation with zeros between the point and the digits. -/
def partNumeral (ds : List Nat) (zeros : Nat) : Numeral :=
  { whole := [0], fraction := List.replicate zeros 0 ++ ds, exponent := none }

def scientificNumeral (ds : List Nat) (e : Int) : Numeral :=
  { whole := ds.take 1, fraction := ds.drop 1, exponent := some e }

def numeral (d : Decimal) : Numeral :=
  if plainRange.1 ≤ d.exponent ∧ d.exponent ≤ plainRange.2 then
    if 0 ≤ d.exponent then wholeNumeral d.digits (d.exponent.toNat + 1)
    else partNumeral d.digits (d.exponent.natAbs - 1)
  else scientificNumeral d.digits d.exponent

theorem digitChars_append (ds es : List Nat) :
    digitChars (ds ++ es) = digitChars ds ++ digitChars es := List.map_append

theorem digitChars_zeros (k : Nat) : digitChars (List.replicate k 0) = List.replicate k '0' := by
  rw [digitChars, List.map_replicate]
  rfl

theorem wholeText_eq (ds : List Nat) (before : Nat) :
    wholeText ds before = (wholeNumeral ds before).text := by
  have hfraction : ∀ es : List Nat,
      Numeral.fractionText (if es.isEmpty then [0] else es) =
        '.' :: if es.isEmpty then ['0'] else digitChars es := by
    intro es
    cases es <;> rfl
  simp only [wholeText, wholeNumeral, Numeral.text, hfraction, digitChars_append, digitChars_zeros,
    Numeral.exponentText, List.append_nil]

theorem partText_eq {ds : List Nat} (h : ds ≠ []) (zeros : Nat) :
    partText ds zeros = (partNumeral ds zeros).text := by
  have hne : (List.replicate zeros 0 ++ ds).isEmpty = false := by simp [h]
  simp only [partText, partNumeral, Numeral.text, Numeral.fractionText, hne, Numeral.exponentText,
    digitChars_append, digitChars_zeros, List.append_nil]
  rfl

theorem scientificText_eq {ds : List Nat} (h : ds ≠ []) (e : Int) :
    scientificText ds e = (scientificNumeral ds e).text := by
  cases ds with
  | nil => exact absurd rfl h
  | cons d ds => cases ds <;> rfl

theorem text_eq {d : Decimal} (h : Proper d.digits) : d.text = d.numeral.text := by
  unfold text numeral
  split
  · split
    · exact wholeText_eq _ _
    · exact partText_eq h.ne_nil _
  · exact scientificText_eq h.ne_nil _

/-! ## The value of the numeral -/

/-- A numeral is well-formed and has the value of the digits `ds` times a power of ten. -/
structure Denotes (m : Numeral) (ds : List Nat) (power : Int) : Prop where
  wellFormed : m.WellFormed
  value : nearestDecimal (ofDigits m.digits) m.power = nearestDecimal (ofDigits ds) power

theorem wholeNumeral_of_lt {ds : List Nat} {before : Nat} (h : before < ds.length) :
    wholeNumeral ds before = ⟨ds.take before, ds.drop before, none⟩ := by
  have hne : (ds.drop before).isEmpty = false := by simp [h]
  simp only [wholeNumeral, hne, List.length_take, Nat.min_eq_left (Nat.le_of_lt h), Nat.sub_self]
  simp

theorem wholeNumeral_of_le {ds : List Nat} {before : Nat} (h : ds.length ≤ before) :
    wholeNumeral ds before = ⟨ds ++ List.replicate (before - ds.length) 0, [0], none⟩ := by
  simp [wholeNumeral, List.drop_eq_nil_of_le h, List.take_of_length_le h]

theorem denotes_whole {ds : List Nat} (h : Proper ds) {before : Nat} (hbefore : 0 < before) :
    Denotes (wholeNumeral ds before) ds (before - ds.length) := by
  obtain ⟨hne, hhead, hdigits⟩ := h
  rcases Nat.lt_or_ge before ds.length with hlt | hge
  · have htake : (ds.take before).head? ≠ some 0 := by rwa [List.head?_take, if_neg (by omega)]
    rw [wholeNumeral_of_lt hlt]
    refine ⟨⟨?_, fun heq => absurd heq htake, ?_⟩, ?_⟩
    · simpa [List.take_eq_nil_iff, hne] using Nat.ne_of_gt hbefore
    · rwa [Numeral.digits, List.take_append_drop]
    · have hpower : Numeral.power ⟨ds.take before, ds.drop before, none⟩ = before - ds.length := by
        simp only [Numeral.power, Option.getD_none, List.length_drop]
        omega
      rw [hpower, Numeral.digits, List.take_append_drop]
  · have happend : (ds ++ List.replicate (before - ds.length) 0).head? ≠ some 0 := by
      obtain ⟨d, es, rfl⟩ := List.exists_cons_of_ne_nil hne
      exact hhead
    have hzeros : ds ++ List.replicate (before - ds.length) 0 ++ [0] =
        ds ++ List.replicate (before - ds.length + 1) 0 := by
      rw [List.append_assoc, List.replicate_succ']
    rw [wholeNumeral_of_le hge]
    refine ⟨⟨by simp [hne], fun heq => absurd heq happend, ?_⟩, ?_⟩
    · rw [Numeral.digits, hzeros]
      intro d hd
      rcases List.mem_append.1 hd with hd | hd
      · exact hdigits d hd
      · rw [List.eq_of_mem_replicate hd]
        decide
    · rw [Numeral.digits, hzeros, ofDigits_append, ofDigits_replicate_zero, List.length_replicate,
        Nat.add_zero, nearestDecimal_mul]
      congr 1
      simp only [Numeral.power, Option.getD_none, List.length_singleton]
      omega

theorem denotes_part {ds : List Nat} (h : Proper ds) (zeros : Nat) :
    Denotes (partNumeral ds zeros) ds (-(zeros + ds.length)) := by
  obtain ⟨hne, -, hdigits⟩ := h
  have hzeros : (partNumeral ds zeros).digits = List.replicate (zeros + 1) 0 ++ ds := by
    rw [List.replicate_succ]
    rfl
  refine ⟨⟨by simp [partNumeral], fun _ => rfl, ?_⟩, ?_⟩
  · rw [hzeros]
    intro d hd
    rcases List.mem_append.1 hd with hd | hd
    · rw [List.eq_of_mem_replicate hd]
      decide
    · exact hdigits d hd
  · rw [hzeros, ofDigits_append, ofDigits_replicate_zero, Nat.zero_mul, Nat.zero_add]
    congr 1
    simp only [Numeral.power, partNumeral, Option.getD_none, List.length_append,
      List.length_replicate]
    omega

theorem denotes_scientific {ds : List Nat} (h : Proper ds) (e : Int) :
    Denotes (scientificNumeral ds e) ds (e + 1 - ds.length) := by
  obtain ⟨hne, -, hdigits⟩ := h
  have hpos : 0 < ds.length := List.length_pos_iff.2 hne
  have hsplit : (scientificNumeral ds e).digits = ds := List.take_append_drop 1 ds
  refine ⟨⟨?_, fun _ => ?_, ?_⟩, ?_⟩
  · simpa [scientificNumeral, List.take_eq_nil_iff] using hne
  · rw [scientificNumeral, List.length_take]
    omega
  · rwa [hsplit]
  · rw [hsplit]
    congr 1
    simp only [Numeral.power, scientificNumeral, Option.getD_some, List.length_drop]
    omega

theorem denotes_numeral {d : Decimal} (h : Proper d.digits) :
    Denotes d.numeral d.digits d.power := by
  unfold numeral
  split
  · split
    · rename_i hsign
      have hpower : d.power = (d.exponent.toNat + 1 : Nat) - d.digits.length := by
        rw [power]
        omega
      rw [hpower]
      exact denotes_whole h (Nat.succ_pos _)
    · rename_i hsign
      have hpower : d.power = -((d.exponent.natAbs - 1 : Nat) + d.digits.length) := by
        rw [power]
        omega
      rw [hpower]
      exact denotes_part h _
  · exact denotes_scientific h _

end Decimal

/-! ## Numbers -/

namespace Binary64

theorem ofDecimal_eq {x : Binary64} {n : Nat} {power : Int}
    (h : nearestDecimal n power = x.magnitude) : ofDecimal x.negative n power = x := by
  have hbits : UInt64.ofNat (x.magnitude + if x.negative then pow2 63 else 0) = x.bits := by
    rw [← x.toNat_bits, UInt64.ofNat_toNat]
  rw [ofDecimal, h, hbits]

/-- The text of a magnitude is that of a numeral to which the magnitude is the nearest. -/
theorem exists_numeral {x : Binary64} (hx : x.isFinite = true) :
    ∃ m : Numeral, m.WellFormed ∧ x.magnitudeText = m.text ∧
      nearestDecimal (ofDigits m.digits) m.power = x.magnitude := by
  by_cases hzero : x.units = 0
  · refine ⟨⟨[0], [0], none⟩, ⟨by simp, fun _ => rfl, by simp [Numeral.digits]⟩, ?_, ?_⟩
    · rw [magnitudeText, if_pos hzero]
      decide
    · rw [units_eq_zero_iff.1 hzero]
      exact nearestDecimal_zero _
  · obtain ⟨hproper, hnearest⟩ := decimal_spec hx hzero
    obtain ⟨hwell, hvalue⟩ := Decimal.denotes_numeral hproper
    refine ⟨x.decimal.numeral, hwell, ?_, hvalue.trans hnearest⟩
    rw [magnitudeText, if_neg hzero, Decimal.text_eq hproper]

end Binary64

namespace Json

/-- A finite number is nearest to what its text denotes, its sign included. -/
theorem readScaled_text {x : Binary64} (hx : x.isFinite = true) {rest : List Char}
    (hrest : Delimited rest) :
    ∃ d : Scaled, readScaled (x.text ++ rest) = some (d, rest) ∧ d.negative = x.negative ∧
      nearestDecimal d.coefficient d.power = x.magnitude := by
  obtain ⟨m, hwell, htext, hnearest⟩ := Binary64.exists_numeral hx
  have hsign : x.text ++ rest = (if x.negative then ['-'] else []) ++ (m.text ++ rest) := by
    rw [Binary64.text, htext]
    split <;> rfl
  refine ⟨⟨x.negative, ofDigits m.digits, m.power⟩, ?_, rfl, hnearest⟩
  rw [hsign, readScaled_numeral hwell x.negative hrest]

theorem readNumber_text {x : Binary64} (hx : x.isFinite = true) {rest : List Char}
    (hrest : Delimited rest) : readNumber (x.text ++ rest) = some (x, rest) := by
  obtain ⟨d, hread, hnegative, hnearest⟩ := readScaled_text hx hrest
  rw [readNumber_eq, hread, Option.map_some, hnegative, Binary64.ofDecimal_eq hnearest]

end Json

end Scriptlet
