import Scriptlet.Number.Digits
import Scriptlet.Text.Word
import Scriptlet.Token.Quote

/-!
# Scriptlet.Proofs.Scan.Classes

Classes of characters that have nothing in common. A class with few members is compared with a
large one by looking at each member (`forall_of_contains`, `mem_digits_of_isDigit`), two large ones
by going through their ranges side by side (`disjointRanges`); the classes of letters are never
listed.

* `disjointRanges`  — whether two lists of ascending ranges have nothing in common.
* `separates`       — blanks and the slash, with which text between tokens begins.
-/

namespace Scriptlet

namespace CodePointSet

def codes (s : CodePointSet) : List Nat :=
  s.ranges.flatMap fun r => List.range' r.1 (r.2 + 1 - r.1)

theorem mem_codes_of_contains {s : CodePointSet} {c : Char} (h : s.contains c = true) :
    c.toNat ∈ s.codes := by
  obtain ⟨r, hr, hlo, hhi⟩ := (s.contains_iff c).1 h
  rw [codes, List.mem_flatMap]
  refine ⟨r, hr, ?_⟩
  rw [List.mem_range'_1]
  omega

/-- What holds of each member of a set holds of a character in it. -/
theorem forall_of_contains {s : CodePointSet} {P : Char → Bool}
    (hall : (s.codes.all fun n => P (Char.ofNat n)) = true) {c : Char}
    (h : s.contains c = true) : P c = true := by
  have := List.all_eq_true.1 hall c.toNat (mem_codes_of_contains h)
  rwa [Char.ofNat_toNat] at this

end CodePointSet

/-! ## Sets with nothing in common -/

/-- Whether ascending ranges have nothing in common. Those of the second list that lie below the
first range lie below the ranges after it too. -/
def disjointRanges : List (Nat × Nat) → List (Nat × Nat) → Bool
  | [], _ => true
  | r :: rs, others =>
    match others.dropWhile fun s => s.2 < r.1 with
    | [] => true
    | s :: rest => r.2 < s.1 && disjointRanges rs (s :: rest)

theorem first_le_of_ascends {low : Nat} {first r : Nat × Nat} {rest : List (Nat × Nat)}
    (h : ascends low (first :: rest) = true) (hr : r ∈ first :: rest) : first.1 ≤ r.1 := by
  induction rest generalizing low first with
  | nil =>
    obtain rfl := List.mem_singleton.1 hr
    exact Nat.le_refl _
  | cons second rest ih =>
    rcases List.mem_cons.1 hr with rfl | hr
    · exact Nat.le_refl _
    · simp only [ascends, Bool.and_eq_true, decide_eq_true_eq] at h
      have hrest : ascends (first.2 + 1) (second :: rest) = true := by simp [ascends, h]
      have hsecond := ih hrest hr
      omega

theorem ascends_of_suffix {low : Nat} {before ranges : List (Nat × Nat)}
    (h : ascends low (before ++ ranges) = true) : ∃ low', ascends low' ranges = true := by
  induction before generalizing low with
  | nil => exact ⟨low, h⟩
  | cons r before ih =>
    simp only [List.cons_append, ascends, Bool.and_eq_true] at h
    exact ih h.2

theorem outside_of_disjointRanges {rs ss : List (Nat × Nat)} {low low' n : Nat}
    (hrs : ascends low rs = true) (hss : ascends low' ss = true)
    (h : disjointRanges rs ss = true) {r s : Nat × Nat} (hr : r ∈ rs) (hs : s ∈ ss)
    (hn : r.1 ≤ n ∧ n ≤ r.2) : ¬ (s.1 ≤ n ∧ n ≤ s.2) := by
  induction rs generalizing low low' ss with
  | nil => cases hr
  | cons first rs ih =>
    intro hin
    have hfirst := first_le_of_ascends hrs hr
    have hsplit := List.takeWhile_append_dropWhile (p := fun s => decide (s.2 < first.1)) (l := ss)
    have hkept : s ∈ ss.dropWhile fun s => decide (s.2 < first.1) := by
      rw [← hsplit] at hs
      rcases List.mem_append.1 hs with hbelow | hkept
      · have := List.all_eq_true.1 List.all_takeWhile s hbelow
        simp only [decide_eq_true_eq] at this
        omega
      · exact hkept
    rw [← hsplit] at hss
    obtain ⟨low'', hrest⟩ := ascends_of_suffix hss
    unfold disjointRanges at h
    split at h
    · rename_i heq
      rw [heq] at hkept
      cases hkept
    · rename_i s₀ rest heq
      rw [heq] at hkept hrest
      simp only [Bool.and_eq_true, decide_eq_true_eq] at h
      rcases List.mem_cons.1 hr with rfl | hr
      · have := first_le_of_ascends hrest hkept
        omega
      · simp only [ascends, Bool.and_eq_true] at hrs
        exact ih hrs.2 hrest h.2 hr hkept hin

theorem CodePointSet.contains_eq_false_of_disjoint {s t : CodePointSet}
    (h : disjointRanges s.ranges t.ranges = true) {c : Char} (hc : s.contains c = true) :
    t.contains c = false := by
  rw [← Bool.not_eq_true]
  intro ht
  obtain ⟨r, hr, hrc⟩ := (s.contains_iff c).1 hc
  obtain ⟨r', hr', hrc'⟩ := (t.contains_iff c).1 ht
  exact outside_of_disjointRanges s.ascending t.ascending h hr hr' hrc hrc'

/-! ## Digits, delimiters and letters -/

def digitCharacters : List Char := ['0', '1', '2', '3', '4', '5', '6', '7', '8', '9']

theorem mem_digits_of_isDigit {c : Char} (h : isDigit c = true) : c ∈ digitCharacters := by
  simp only [isDigit, Bool.and_eq_true, decide_eq_true_eq, Char.le_def,
    UInt32.le_iff_toNat_le] at h
  have hlo : 48 ≤ c.toNat := h.1
  have hhi : c.toNat < 58 := Nat.lt_succ_of_le h.2
  have hall : ∀ n < 58, 48 ≤ n → Char.ofNat n ∈ digitCharacters := by decide
  rw [← Char.ofNat_toNat c]
  exact hall c.toNat hhi hlo

/-! The two classes that end words agree on digits, on delimiters and on what begins a name. -/

theorem extendsWord_eq_of_isDigit {c : Char} (h : isDigit c = true) :
    extendsWord c = continuesName c := by
  have hall : (digitCharacters.all fun d => extendsWord d == continuesName d) = true := by
    decide +kernel
  simpa using List.all_eq_true.1 hall c (mem_digits_of_isDigit h)

theorem extendsWord_eq_quote (q : Quote) :
    extendsWord q.character = continuesName q.character := by
  cases q <;> decide +kernel

theorem extendsWord_eq_of_startsName {c : Char} (h : startsName c = true) :
    extendsWord c = continuesName c := by
  rw [continuesName_of_startsName h, extendsWord_of_startsName h]

def separates (c : Char) : Bool := isBlank c || c == '/'

/-- Whether a character has no place in a word, a number or a name. -/
def apartFromWords (c : Char) : Bool :=
  !startsName c && !continuesName c && !extendsWord c && !isDigit c

theorem apart_of_separates {c : Char} (h : separates c = true) :
    startsName c = false ∧ continuesName c = false ∧ extendsWord c = false ∧
      isDigit c = false := by
  have hapart : apartFromWords c = true := by
    simp only [separates, Bool.or_eq_true, beq_iff_eq] at h
    rcases h with h | rfl
    · exact CodePointSet.forall_of_contains (s := blank) (by decide +kernel) h
    · decide +kernel
  simpa [apartFromWords, and_assoc] using hapart

theorem separates_of_isDigit {c : Char} (h : isDigit c = true) : separates c = false := by
  rw [← Bool.not_eq_true]
  intro hsep
  cases h.symm.trans (apart_of_separates hsep).2.2.2

theorem isBlank_of_startsName {c : Char} (h : startsName c = true) : isBlank c = false := by
  cases hb : isBlank c with
  | false => rfl
  | true =>
    have := (apart_of_separates (c := c) (by simp [separates, hb])).1
    rw [h] at this
    cases this

theorem slash_of_startsName {c : Char} (h : startsName c = true) : c ≠ '/' := by
  rintro rfl
  have := (apart_of_separates (c := '/') (by simp [separates])).1
  rw [h] at this
  cases this

theorem isDigit_of_startsName {c : Char} (h : startsName c = true) : isDigit c = false := by
  cases hd : isDigit c with
  | false => rfl
  | true =>
    have hall : digitCharacters.all (fun d => !startsName d) = true := by decide +kernel
    have hc := List.all_eq_true.1 hall c (mem_digits_of_isDigit hd)
    rw [h] at hc
    cases hc

theorem ofCharacter?_of_startsName {c : Char} (h : startsName c = true) :
    Quote.ofCharacter? c = none := by
  cases hq : Quote.ofCharacter? c with
  | none => rfl
  | some q =>
    have hall : ∀ q ∈ Quote.all, startsName q.character = false := by decide +kernel
    have hmem : q ∈ Quote.all := by cases q <;> decide
    rw [Quote.ofCharacter?_eq_some_iff.1 hq, hall q hmem] at h
    cases h

/-! ## Characters that continue names only -/

theorem extendsWord_of_mark {c : Char} (hc : mark.contains c = true)
    (hletter : alphabetic.contains c = false) : extendsWord c = false := by
  have apart : ∀ {s : CodePointSet}, disjointRanges mark.ranges s.ranges = true →
      s.contains c = false := fun h => CodePointSet.contains_eq_false_of_disjoint h hc
  have hlow : c ≠ '_' := by
    rintro rfl
    exact absurd hc (by decide +kernel)
  have hdollar : c ≠ '$' := by
    rintro rfl
    exact absurd hc (by decide +kernel)
  simp [extendsWord, hletter, hlow, hdollar, apart (s := decimalDigit) (by decide +kernel),
    apart (s := letterNumber) (by decide +kernel), apart (s := otherNumber) (by decide +kernel),
    apart (s := recentLetterOrNumber) (by decide +kernel)]

theorem extendsWord_of_connector {c : Char} (hc : connector.contains c = true) (hne : c ≠ '_') :
    extendsWord c = false := by
  have hword := CodePointSet.forall_of_contains (s := connector)
    (P := fun c => c == '_' || !extendsWord c) (by decide +kernel) hc
  simpa [hne] using hword

theorem extendsWord_of_joinControl {c : Char} (hc : joinControl.contains c = true) :
    extendsWord c = false := by
  have hword := CodePointSet.forall_of_contains (s := joinControl)
    (P := fun c => !extendsWord c) (by decide +kernel) hc
  simpa using hword

/-- The characters that continue names only are marks that are no letters, connectors other than
the low line, and joiners. -/
theorem continues_only_iff (c : Char) :
    continuesName c = true ∧ extendsWord c = false ↔
      mark.contains c = true ∧ alphabetic.contains c = false ∨
        connector.contains c = true ∧ c ≠ '_' ∨ joinControl.contains c = true := by
  constructor
  · rintro ⟨hname, hext⟩
    simp only [extendsWord, Bool.or_eq_false_iff, beq_eq_false_iff_ne] at hext
    obtain ⟨⟨⟨⟨⟨⟨hletter, hdigit⟩, -⟩, -⟩, -⟩, hlow⟩, hdollar⟩ := hext
    simpa [continuesName, hletter, hdigit, hlow, hdollar, or_assoc] using hname
  · rintro (⟨hc, hletter⟩ | ⟨hc, hne⟩ | hc)
    · exact ⟨by simp [continuesName, hc], extendsWord_of_mark hc hletter⟩
    · exact ⟨by simp [continuesName, hc], extendsWord_of_connector hc hne⟩
    · exact ⟨by simp [continuesName, hc], extendsWord_of_joinControl hc⟩

end Scriptlet
