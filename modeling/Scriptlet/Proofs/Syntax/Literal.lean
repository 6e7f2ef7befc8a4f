import Scriptlet.Proofs.Json.RoundTrip
import Scriptlet.Proofs.Number.Nearest
import Scriptlet.Proofs.Scan.Printing
import Scriptlet.Proofs.Syntax.Acceptance
import Scriptlet.Tree.Document
import Scriptlet.Tree.Equality

/-!
# Scriptlet.Proofs.Syntax.Literal

Numbers as they are read from a source and as they are handed over:

* `denoted`      — the natural number that a string of digits stands for.
* `Scaled.size`  — the rational number that the text of a number stands for, without its sign.

A number that is read is the one nearest to its digits (`parse_number`), and a number that is
written is the one nearest to its text (`nearest_text`). `numbers_round` states both, for digits of
any length and for every finite number.
-/

namespace Scriptlet

/-- The program that is a number. -/
def numberProgram (x : Binary64) : Program := ⟨[.expression (.number x)]⟩

/-- What a string of digits denotes. -/
def denoted (ds : List Char) : Nat := ofDigits (ds.map digitValue)

/-! ## Digits -/

theorem parse_number {ds : List Char} (h : Kind.number.Lexeme ds) :
    parse (String.ofList (ds ++ [';'])) = .ok (numberProgram (.ofNat (denoted ds))) := by
  let printed : List Printed := [⟨[], .number, ds⟩, ⟨[], .semicolon, [';']⟩]
  have htext : printText printed [] = ds ++ [';'] := by simp [printed, printText, Printed.text]
  have hread : ReadsBack printed [] := by
    refine ⟨⟨h, by simp⟩, ?_, ⟨⟨";", by decide, rfl⟩, by simp⟩, by simp [Kind.Ends, printText],
      trivial⟩
    rintro c ⟨⟩
    rfl
  have hgap : ∀ x ∈ printed, Trivia x.gap := by
    simp [printed, Trivia.nil]
  obtain ⟨ts, hfeed, hts⟩ := feed_of_readsBack hread hgap (.inl .nil) (ds ++ [';']) .start
  rw [htext] at hfeed
  obtain ⟨t, us, rfl, ht, hus⟩ := List.map_eq_cons_iff.1 hts
  obtain ⟨u, vs, rfl, hu, hvs⟩ := List.map_eq_cons_iff.1 hus
  obtain rfl := List.map_eq_nil_iff.1 hvs
  obtain ⟨hkind, hlexeme⟩ := Prod.mk.inj ht
  have hvalue : Binary64.read t.lexeme.toList = some (.ofNat (denoted ds)) := by
    rw [hlexeme, String.toList_ofList, Binary64.read_digits h.1 h.2, denoted]
  have hscan : scan (String.ofList (ds ++ [';'])) = ⟨[t, u], none⟩ := by
    rw [scan, String.toList_ofList, Scanner.start, hfeed]
  have hleaf : Leaf t (.number (.ofNat (denoted ds))) := .number hkind hvalue
  exact parse_of_derives hscan
    ⟨.cons (.expression (.leaf hleaf) (Prod.mk.inj hu).1) .nil, List.cons_ne_nil _ _⟩

theorem denoted_zeros (k : Nat) (ds : List Char) :
    denoted (List.replicate k '0' ++ ds) = denoted ds := by
  have hzero : digitValue '0' = 0 := rfl
  rw [denoted, List.map_append, List.map_replicate, hzero, ofDigits_append,
    ofDigits_replicate_zero, Nat.zero_mul, Nat.zero_add, denoted]

theorem lexeme_zeros {ds : List Char} (h : Kind.number.Lexeme ds) (k : Nat) :
    Kind.number.Lexeme (List.replicate k '0' ++ ds) := by
  refine ⟨List.append_ne_nil_of_right_ne_nil _ h.1, fun c hc => ?_⟩
  rcases List.mem_append.1 hc with hc | hc
  · rw [List.eq_of_mem_replicate hc]
    rfl
  · exact h.2 c hc

theorem equal_numberProgram_iff {x y : Binary64} (hx : x.Whole) (hy : y.Whole) :
    (numberProgram x).equal (numberProgram y) = true ↔ x = y := by
  rw [← hx.equal_iff hy]
  simp [numberProgram, Program.equal, equalBodies, Statement.equal, Expression.equal]

/-! ## Texts -/

/-- What stands before the number in the compact text of a program that is a number. -/
def beforeNumber : List Char :=
  "\x7b\"type\":\"Program\",\"statements\":[\x7b\"type\":\"NumericLiteral\",\"value\":".toList

def afterNumber : List Char := "\x7d]\x7d".toList

/-- What the text of a number denotes, without its sign. -/
def Scaled.size (d : Scaled) : ℚ := d.coefficient * 10 ^ d.power

theorem cast_pow10 (n : Nat) : (pow10 n : ℚ) = 10 ^ n := by
  have hpow : pow10 n = 10 ^ n := rfl
  rw [hpow, Nat.cast_pow, Nat.cast_ofNat]

theorem nearest_scaled_iff {x : Binary64} {d : Scaled} :
    x.Nearest d.size ↔ x.magnitude = nearestDecimal d.coefficient d.power := by
  have hpower : (10 : ℚ) ^ d.power = (pow10 d.power.toNat : ℚ) / pow10 (-d.power).toNat := by
    rw [cast_pow10, cast_pow10, ← zpow_natCast, ← zpow_natCast, ← zpow_sub₀ (by decide),
      Int.toNat_sub_toNat_neg]
  rw [Scaled.size, hpower, ← mul_div_assoc, ← Nat.cast_mul, Binary64.nearest_iff (pow10_pos _),
    nearestDecimal]

/-- A finite number is the one that is nearest to its text and has the sign of the text. -/
theorem nearest_text {x : Binary64} (hx : x.isFinite = true) :
    ∃ d, Json.readScaled x.text = some (d, []) ∧
      ∀ y : Binary64, y.negative = d.negative ∧ y.Nearest d.size ↔ y = x := by
  obtain ⟨d, hread, hnegative, hnearest⟩ := Json.readScaled_text hx (nofun : Json.Delimited [])
  rw [List.append_nil] at hread
  refine ⟨d, hread, fun y => ?_⟩
  rw [nearest_scaled_iff, hnegative, hnearest]
  constructor
  · rintro ⟨hsign, hmagnitude⟩
    exact Binary64.ext_bits hsign hmagnitude
  · rintro rfl
    exact ⟨rfl, rfl⟩

theorem write_ofNumber {x : Binary64} (hx : x.isFinite = true) (l : Layout) (depth : Nat)
    (following : List Char) :
    Json.write l depth (.ofNumber x) following = x.text ++ following := by
  rw [Json.ofNumber, if_pos hx, Json.write, Json.numberText, if_pos hx]

theorem compactText_number {x : Binary64} (hx : x.isFinite = true) :
    (numberProgram x).compactText.toList = beforeNumber ++ (x.text ++ afterNumber) := by
  have htext : (numberProgram x).compactText.toList = (numberProgram x).document.text .compact :=
    String.toList_ofList
  refine htext.trans ?_
  simp only [Json.text, numberProgram, Program.document, bodyDocuments, Statement.document,
    Expression.document, listDocument, nodeDocument, Json.write, Json.writeMembers,
    Json.writeItems, write_ofNumber hx]
  rfl

/-- Digits, however many, are read as the number nearest to what they denote, which is infinity
from `2 ^ 1024 - 2 ^ 970` on; zeros before them do not matter, more is not read as less, and up to
`2 ^ 53` nothing is read as something else. A finite number is the nearest to the text that it has
in both layouts, and no other number is. -/
theorem numbers_round :
    (∀ ds : List Char, ds ≠ [] → (∀ c ∈ ds, isDigit c = true) → ∃ x : Binary64,
      parse (String.ofList (ds ++ [';'])) = .ok (numberProgram x) ∧
      (∀ y : Binary64, y.negative = false ∧ y.Nearest (denoted ds) ↔ y = x) ∧
      (x = .ofMagnitude Binary64.infinite ↔ pow2 1024 - pow2 970 ≤ denoted ds) ∧
      ∀ k, parse (String.ofList (List.replicate k '0' ++ ds ++ [';'])) =
        .ok (numberProgram x)) ∧
    (∀ ds es : List Char, ds ≠ [] → (∀ c ∈ ds, isDigit c = true) →
      es ≠ [] → (∀ c ∈ es, isDigit c = true) → ∃ x y : Binary64,
      parse (String.ofList (ds ++ [';'])) = .ok (numberProgram x) ∧
      parse (String.ofList (es ++ [';'])) = .ok (numberProgram y) ∧
      (denoted ds ≤ denoted es → x.size ≤ y.size) ∧
      (denoted ds ≤ pow2 53 → denoted es ≤ pow2 53 →
        ((numberProgram x).equal (numberProgram y) = true ↔ denoted ds = denoted es))) ∧
    ∀ x : Binary64, x.isFinite = true →
      (∀ l depth following,
        Json.write l depth (.ofNumber x) following = x.text ++ following) ∧
      (numberProgram x).compactText.toList = beforeNumber ++ (x.text ++ afterNumber) ∧
      ∃ d, Json.readScaled x.text = some (d, []) ∧
        ∀ y : Binary64, y.negative = d.negative ∧ y.Nearest d.size ↔ y = x := by
  refine ⟨fun ds hne hds => ?_, fun ds es hne hds hne' hes => ?_, fun x hx => ?_⟩
  · refine ⟨_, parse_number ⟨hne, hds⟩, fun y => Binary64.nearest_ofNat_iff,
      Binary64.ofNat_eq_infinite_iff, fun k => ?_⟩
    rw [parse_number (lexeme_zeros ⟨hne, hds⟩ k), denoted_zeros]
  · refine ⟨_, _, parse_number ⟨hne, hds⟩, parse_number ⟨hne', hes⟩, Binary64.size_ofNat_le,
      fun h h' => ?_⟩
    rw [equal_numberProgram_iff (Binary64.whole_ofNat _) (Binary64.whole_ofNat _),
      Binary64.ofNat_eq_ofNat_iff h h']
  · exact ⟨write_ofNumber hx, compactText_number hx, nearest_text hx⟩

/-- The digits of `2 ^ 53 - 1`. -/
def digitsBelow : List Char := "9007199254740991".toList

/-- The digits of `2 ^ 53`. -/
def digitsAt : List Char := "9007199254740992".toList

/-- The digits of `2 ^ 53 + 1`, which lies halfway between two numbers of the format. -/
def digitsAbove : List Char := "9007199254740993".toList

/-- The negative number that is closest to zero. -/
def leastNegative : Binary64 := ⟨0x8000000000000001⟩

theorem numbers_round_tie :
    (∃ x : Binary64, parse (String.ofList (digitsAbove ++ [';'])) = .ok (numberProgram x) ∧
      ∀ y : Binary64, y.negative = false ∧ y.Nearest (denoted digitsAbove) ↔ y = x) ∧
    (∃ x y : Binary64, parse (String.ofList (digitsBelow ++ [';'])) = .ok (numberProgram x) ∧
      parse (String.ofList (digitsAt ++ [';'])) = .ok (numberProgram y) ∧ x.size ≤ y.size ∧
      ¬ (numberProgram x).equal (numberProgram y) = true) ∧
    ∃ d, Json.readScaled leastNegative.text = some (d, []) ∧
      ∀ y : Binary64, y.negative = d.negative ∧ y.Nearest d.size ↔ y = leastNegative := by
  have hdigits : ∀ ds ∈ [digitsBelow, digitsAt, digitsAbove], ds.all isDigit = true := by
    decide +kernel
  have hbelow := List.all_eq_true.1 (hdigits digitsBelow (by simp))
  have hat := List.all_eq_true.1 (hdigits digitsAt (by simp))
  have habove := List.all_eq_true.1 (hdigits digitsAbove (by simp))
  have hless : denoted digitsBelow < denoted digitsAt := by decide +kernel
  have hsmall : denoted digitsAt ≤ pow2 53 := by decide +kernel
  obtain ⟨hread, hcompare, hwrite⟩ := numbers_round
  refine ⟨?_, ?_, (hwrite leastNegative (by decide +kernel)).2.2⟩
  · obtain ⟨x, hparse, hnearest, -⟩ := hread digitsAbove (by decide +kernel) habove
    exact ⟨x, hparse, hnearest⟩
  · obtain ⟨x, y, hx, hy, hsize, hequal⟩ :=
      hcompare digitsBelow digitsAt (by decide +kernel) hbelow (by decide +kernel) hat
    refine ⟨x, y, hx, hy, hsize (Nat.le_of_lt hless), fun heq => ?_⟩
    have := (hequal (Nat.le_trans (Nat.le_of_lt hless) hsmall) hsmall).1 heq
    omega

end Scriptlet
