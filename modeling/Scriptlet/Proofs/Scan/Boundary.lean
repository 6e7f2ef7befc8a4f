import Scriptlet.Proofs.Scan.Delimited

/-!
# Scriptlet.Proofs.Scan.Boundary

Where the scanner lets a lexeme end.

`ends_of_firstMatch` is the converse of `firstMatch_printable`: the text after a token does not go
on with its lexeme. `Cuts.printable` is about names. A reserved word that is followed by a number
of another script is taken as a name, but then the scan stops there, since no rule opens with a
character on which the two classes differ (`extendsWord_eq_of_opens`). So in a scan that reads its
whole text, no name begins with a complete reserved word.
-/

namespace Scriptlet

/-! ## The text after a token -/

theorem cutName_rest {cs w rest : List Char} (h : cutName cs = some (w, rest)) :
    Kind.identifier.Ends rest := by
  unfold cutName at h
  split at h
  · cases h
  · split at h
    · cases h
      exact fun c hc => head?_dropWhile_eq_false hc
    · cases h

/-- A comma and a parenthesis that stand together are not cut apart. -/
theorem comma_ends {rest : List Char} {m : Match} (h : firstMatch (',' :: rest) = some m)
    (hk : m.action = .emit .comma) : Kind.comma.Ends rest := by
  intro c hc
  cases hgo : Kind.comma.goesOn c with
  | false => rfl
  | true =>
    obtain rfl : c = ')' := by simpa [Kind.goesOn] using hgo
    obtain ⟨t, rfl⟩ := List.head?_eq_some_iff.1 hc
    have hends : Kind.commaCloseParen.Ends t := fun _ _ => rfl
    have hfused : firstMatch (',' :: ')' :: t) = _ :=
      firstMatch_spelling (v := ",)") List.mem_cons_self hends
    rw [hfused] at h
    cases h
    cases hk

/-- Two equals signs that stand together are not cut apart. -/
theorem assign_ends {rest : List Char} {m : Match} (h : firstMatch ('=' :: rest) = some m)
    (hk : m.action = .emit .assign) : Kind.assign.Ends rest := by
  intro c hc
  cases hgo : Kind.assign.goesOn c with
  | false => rfl
  | true =>
    obtain rfl : c = '=' := by simpa [Kind.goesOn] using hgo
    obtain ⟨t, rfl⟩ := List.head?_eq_some_iff.1 hc
    have hends : Kind.operator.Ends t := fun _ _ => rfl
    have hdouble : firstMatch ('=' :: '=' :: t) = _ :=
      firstMatch_spelling (v := "==") (by decide) hends
    rw [hdouble] at h
    cases h
    cases hk

/-- The kinds with a rule for spellings that are no words. -/
def markKinds : List Kind :=
  [.semicolon, .openBrace, .closeBrace, .commaCloseParen, .comma, .openParen, .closeParen,
    .operator, .assign]

theorem goesOn_of_mark {k : Kind} (hk : k ∈ markKinds) (hcomma : k ≠ .comma)
    (hassign : k ≠ .assign) (c : Char) : k.goesOn c = false := by
  simp only [markKinds, List.mem_cons, List.not_mem_nil, or_false] at hk
  rcases hk with rfl | rfl | rfl | rfl | rfl | rfl | rfl | rfl | rfl <;>
    first | rfl | contradiction

theorem mem_marks_of_spelled {r : Rule} (hr : r ∈ rules) {ws : List String}
    (hp : r.pattern = .spelled ws) {k : Kind} (hk : r.action = .emit k) :
    k ∈ markKinds := by
  have hmarks : ∀ r ∈ rules, ∀ k ∈ Kind.all, r.action = .emit k →
      (match r.pattern with | .spelled _ => true | _ => false) = true → k ∈ markKinds := by
    decide
  exact hmarks r hr k (Kind.mem_all k) hk (by rw [hp])

theorem ends_of_firstMatch {cs : List Char} {m : Match} {k : Kind} (h : firstMatch cs = some m)
    (hk : m.action = .emit k) : k.Ends m.rest := by
  obtain ⟨r, hr, hm⟩ := mem_of_firstMatch h
  obtain ⟨⟨piece, rest⟩, hs, rfl⟩ := Option.map_eq_some_iff.1 hm
  have hsuits := suits_of_mem_rules hr hk
  obtain rfl : piece ++ rest = cs := (firstMatch_append h).1
  cases hp : r.pattern with
  | blanks => simp [hp, Pattern.suits] at hsuits
  | lineComment => simp [hp, Pattern.suits] at hsuits
  | blockComment => simp [hp, Pattern.suits] at hsuits
  | digits =>
    obtain rfl : k = .number := by simpa [hp, Pattern.suits] using hsuits
    rw [hp] at hs
    exact (cutRun_eq_some hs).2.2
  | quoted =>
    obtain rfl : k = .string := by simpa [hp, Pattern.suits] using hsuits
    exact fun _ _ => rfl
  | name =>
    obtain rfl : k = .identifier := by simpa [hp, Pattern.suits] using hsuits
    rw [hp] at hs
    exact cutName_rest hs
  | reserved ws =>
    rw [hp] at hs
    exact (ends_iff_endsWord (mem_words_of_reserved hr hp hk)).2 (cutReserved_eq_some hs).2
  | spelled ws =>
    have hlex := lexeme_of_firstMatch h hk
    have hmem := mem_marks_of_spelled hr hp hk
    by_cases hcomma : k = .comma
    · subst hcomma
      obtain rfl : piece = [','] := by
        simpa [Kind.Lexeme, Kind.spellings, Kind.spelling?] using hlex
      exact comma_ends h hk
    · by_cases hassign : k = .assign
      · subst hassign
        obtain rfl : piece = ['='] := by
          simpa [Kind.Lexeme, Kind.spellings, Kind.spelling?] using hlex
        exact assign_ends h hk
      · exact fun c _ => goesOn_of_mark hmem hcomma hassign c

/-! ## Words that end nowhere -/

theorem firstMatch_eq_none {c : Char} {cs : List Char}
    (h : (rules.all fun r => !r.pattern.opens c) = true) : firstMatch (c :: cs) = none := by
  have hnone : candidates c = [] := by
    rw [candidates, List.filter_eq_nil_iff]
    intro r hr
    simpa using List.all_eq_true.1 h r hr
  rw [firstMatch_cons, hnone]
  rfl

/-- Whether a spelling begins with a character that extends words where it continues names. -/
def beginsAlike (v : String) : Bool :=
  v.toList.head?.all fun c => extendsWord c == continuesName c

/-- The classes that end reserved words and names agree on what a match begins with. -/
theorem extendsWord_eq_of_opens {r : Rule} (hr : r ∈ rules) {c : Char}
    (h : r.pattern.opens c = true) : extendsWord c = continuesName c := by
  have hspellings : (rules.all fun r => r.pattern.allWords beginsAlike beginsAlike) = true := by
    decide +kernel
  have hr' := List.all_eq_true.1 hspellings r hr
  have separating : separates c = true → extendsWord c = continuesName c := by
    intro hsep
    obtain ⟨-, hname, hword, -⟩ := apart_of_separates hsep
    rw [hname, hword]
  have spelling : ∀ {vs : List String}, vs.all beginsAlike = true →
      (vs.any fun v => v.toList.head? == some c) = true → extendsWord c = continuesName c := by
    intro vs hvs hany
    obtain ⟨v, hv, hc⟩ := List.any_eq_true.1 hany
    have halike := List.all_eq_true.1 hvs v hv
    rw [beginsAlike, beq_iff_eq.1 hc] at halike
    simpa using halike
  generalize r.pattern = p at h hr'
  cases p with
  | blanks => exact separating (Bool.or_eq_true_iff.2 (.inl h))
  | lineComment => exact separating (Bool.or_eq_true_iff.2 (.inr h))
  | blockComment => exact separating (Bool.or_eq_true_iff.2 (.inr h))
  | spelled vs => exact spelling hr' h
  | reserved vs => exact spelling hr' h
  | digits => exact extendsWord_eq_of_isDigit h
  | quoted =>
    obtain ⟨q, hq⟩ := Option.isSome_iff_exists.1 h
    rw [Quote.ofCharacter?_eq_some_iff.1 hq]
    exact extendsWord_eq_quote q
  | name => exact extendsWord_eq_of_startsName h

/-- No match begins with a character that only extends words or only continues names. -/
theorem firstMatch_eq_none_of_ne {c : Char} (h : extendsWord c ≠ continuesName c)
    (cs : List Char) : firstMatch (c :: cs) = none := by
  refine firstMatch_eq_none (List.all_eq_true.2 fun r hr => ?_)
  rw [Bool.not_eq_true']
  exact Bool.eq_false_iff.2 fun hopens => h (extendsWord_eq_of_opens hr hopens)

/-- No token begins with a character that extends words and does not continue names. -/
theorem firstMatch_eq_none_of_extendsWord {c : Char} (hext : extendsWord c = true)
    (hname : continuesName c = false) (cs : List Char) : firstMatch (c :: cs) = none := by
  refine firstMatch_eq_none_of_ne ?_ cs
  rw [hext, hname]
  decide

/-! ## Names in whole scans -/

/-- A text that begins with a complete reserved word does not begin with a name. -/
theorem not_identifier_of_reserved {v : String} (hv : v ∈ reservedWords) {rest : List Char}
    (hends : endsWord rest = true) {m : Match} (h : firstMatch (v.toList ++ rest) = some m) :
    m.action ≠ .emit .identifier := by
  obtain ⟨k, hk, hspelling⟩ := exists_kind_of_reserved hv
  rw [firstMatch_spelling hspelling ((ends_iff_endsWord hk).2 hends)] at h
  cases h
  rintro ⟨⟩
  cases spelled_of_mem_spellings hspelling

theorem unreserved_text_of_firstMatch {cs : List Char} {m : Match} (h : firstMatch cs = some m)
    (hk : m.action = .emit .identifier) : Unreserved cs := by
  rintro v hv rest rfl
  cases rest with
  | nil => exact absurd hk (not_identifier_of_reserved hv rfl h)
  | cons c rest =>
    cases hext : extendsWord c with
    | true => exact ⟨c, rfl, hext⟩
    | false => exact absurd hk (not_identifier_of_reserved hv (by simp [endsWord, hext]) h)

/-- A token is matched if and only if its text is a lexeme of its kind that ends before the text
after it, and no reserved word stands where a name is matched. -/
theorem firstMatch_emit_iff {k : Kind} {w rest : List Char} :
    firstMatch (w ++ rest) = some ⟨w, rest, .emit k⟩ ↔
      k.Lexeme w ∧ k.Ends rest ∧ (k = .identifier → Unreserved (w ++ rest)) := by
  constructor
  · intro h
    refine ⟨lexeme_of_firstMatch h rfl, ends_of_firstMatch h rfl, ?_⟩
    rintro rfl
    exact unreserved_text_of_firstMatch h rfl
  · rintro ⟨hlex, hends, hname⟩
    by_cases hk : k = .identifier
    · subst hk
      exact firstMatch_name hlex (hname rfl) hends
    · exact firstMatch_printable ⟨hlex, fun he => absurd he hk⟩ hends

/-- A name that is not followed by a text at which the scan stops. -/
theorem unreserved_of_firstMatch {w rest : List Char}
    (h : firstMatch (w ++ rest) = some ⟨w, rest, .emit .identifier⟩)
    (hrest : rest ≠ [] → firstMatch rest ≠ none) : Unreserved w := by
  rintro v hv u rfl
  obtain ⟨c, hc, hext⟩ := unreserved_text_of_firstMatch h rfl v hv (u ++ rest) (by simp)
  cases u with
  | cons d u => exact ⟨c, hc, hext⟩
  | nil =>
    obtain ⟨cs, rfl⟩ := List.head?_eq_some_iff.1 hc
    have hname : continuesName c = false := ends_of_firstMatch h rfl c rfl
    exact absurd (firstMatch_eq_none_of_extendsWord hext hname cs) (hrest (List.cons_ne_nil c cs))

/-- In a scan that reads its whole text every lexeme is one that is read back as it is. -/
theorem Cuts.printable {p : Position} {cs : List Char} {ps : List Piece} (h : Cuts p cs ps []) :
    ∀ t, Piece.read t ∈ ps → t.kind.Printable t.lexeme.toList := by
  intro t ht
  obtain ⟨before, after, hps⟩ := List.append_of_mem ht
  obtain ⟨hm, q, hafter⟩ := h.read hps
  refine ⟨lexeme_of_firstMatch hm rfl, fun hk => ?_⟩
  rw [hk] at hm
  rw [List.append_nil] at hm hafter
  exact unreserved_of_firstMatch hm hafter.goes_on

theorem printable_of_mem_tokens {source : String} {ts : List Token}
    (h : scan source = ⟨ts, none⟩) : ∀ t ∈ ts, t.kind.Printable t.lexeme.toList := by
  obtain ⟨ps, left, hcuts, hscan⟩ := exists_cuts_of_scan source
  rw [h] at hscan
  obtain ⟨rfl, hleft⟩ := Feed.mk.inj hscan
  obtain rfl : left = [] := by simpa using hleft.symm
  exact fun t ht => hcuts.printable t (read_mem_of_mem ht)

end Scriptlet
