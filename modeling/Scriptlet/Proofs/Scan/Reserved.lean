import Scriptlet.Proofs.Scan.Standing

/-!
# Scriptlet.Proofs.Scan.Reserved

Reserved words and names. One match alone can mix them up: a reserved word before a number of
another script is taken as a name, and one before a joiner or a mark is taken as a whole word. In
both cases the character that follows is one on which the two classes differ, so no match begins
with it and the next call is a fault (`nextToken_refused`). A scan that reads its whole text never
gets into such a state.
-/

namespace Scriptlet

/-! ## Reserved words as lexemes -/

theorem startsName_head_reserved {v : String} (hv : v ∈ reservedWords) :
    ∃ c cs, v.toList = c :: cs ∧ startsName c = true := by
  have hall : (reservedWords.all fun v => v.toList.head?.any startsName) = true := by
    decide +kernel
  obtain ⟨c, hc, hstart⟩ := (Option.any_eq_true _ _).1 (List.all_eq_true.1 hall v hv)
  obtain ⟨cs, hcs⟩ := List.head?_eq_some_iff.1 hc
  exact ⟨c, cs, hcs, hstart⟩

/-- A reserved word is printed for its own kind only. -/
theorem word_of_printable {k : Kind} {v : String} (hv : v ∈ reservedWords)
    (h : k.Printable v.toList) : k ∈ wordKinds ∧ v ∈ k.spellings := by
  obtain ⟨hlex, hname⟩ := h
  obtain ⟨c, cs, hcs, hstart⟩ := startsName_head_reserved hv
  by_cases hk : k.spelled = true
  · obtain ⟨u, hu, huv⟩ := (Kind.lexeme_iff_of_spelled hk).1 hlex
    obtain rfl : v = u := String.toList_inj.1 huv
    have hword := Kind.mem_all_of_spellings (P := fun k v =>
      !decide (v ∈ reservedWords) || decide (k ∈ wordKinds)) (by decide) hu
    exact ⟨by simpa [hv] using hword, hu⟩
  · exfalso
    cases k with
    | number =>
      have hdigit := hlex.2 c (by simp [hcs])
      rw [isDigit_of_startsName hstart] at hdigit
      cases hdigit
    | string =>
      obtain ⟨q, inner, -, hq⟩ := hlex
      obtain rfl : c = q.character := by
        rw [hcs] at hq
        exact (List.cons.inj hq).1
      have hnone := ofCharacter?_of_startsName hstart
      rw [Quote.ofCharacter?_character] at hnone
      cases hnone
    | identifier =>
      obtain ⟨d, hd, -⟩ := hname rfl v hv [] (List.append_nil _).symm
      cases hd
    | _ => exact hk rfl

/-! ## The character after a word or a name -/

/-- After a word or a name comes no character of one of the two classes. -/
theorem continues_or_extends_of_ends {k : Kind} (hk : k = .identifier ∨ k ∈ wordKinds)
    {rest : List Char} (h : k.Ends rest) {c : Char} (hc : c ∈ rest.head?) :
    continuesName c = false ∨ extendsWord c = false := by
  rcases hk with rfl | hk
  · exact .inl (h c hc)
  · exact .inr (endsWord_iff.1 ((ends_iff_endsWord hk).1 h) c hc)

/-- If the text goes on with a match, the character is of neither class. -/
theorem apart_of_ends {k : Kind} (hk : k = .identifier ∨ k ∈ wordKinds) {rest : List Char}
    (h : k.Ends rest) (hrest : rest ≠ [] → firstMatch rest ≠ none) {c : Char}
    (hc : c ∈ rest.head?) : continuesName c = false ∧ extendsWord c = false := by
  obtain ⟨cs, rfl⟩ := List.head?_eq_some_iff.1 hc
  have hsame : extendsWord c = continuesName c := by
    by_contra hne
    exact hrest (List.cons_ne_nil c cs) (firstMatch_eq_none_of_ne hne cs)
  rcases continues_or_extends_of_ends hk h hc with hname | hword
  · exact ⟨hname, hsame.trans hname⟩
  · exact ⟨hsame.symm.trans hword, hword⟩

/-! ## One call -/

/-- A token was cut from in front of what the scanner has left. -/
theorem exists_match_of_nextToken {s s' : Scanner} {t : Token}
    (h : s.nextToken = (.token t, s')) :
    firstMatch (t.lexeme.toList ++ s'.rest) =
      some ⟨t.lexeme.toList, s'.rest, .emit t.kind⟩ := by
  fun_induction Scanner.nextToken s with
  | case1 => cases h
  | case2 => cases h
  | case3 s m hm kind hk =>
    cases h
    have happ : m.piece ++ m.rest = s.rest := (firstMatch_append hm).1
    rw [String.toList_ofList, ← hk]
    exact happ ▸ hm
  | case4 s m hm hk ih => exact ih h

/-- Text that no match begins is refused at its first character. -/
theorem nextToken_refused {s : Scanner} (hne : s.rest ≠ []) (hm : firstMatch s.rest = none) :
    ∃ c ∈ s.rest.head?, s.nextToken = (.fault ⟨c, s.position⟩, s) := by
  obtain ⟨c, cs, hcs⟩ := List.exists_cons_of_ne_nil hne
  exact ⟨c, by rw [hcs]; rfl, Scanner.nextToken_fault hcs hm⟩

/-- After a match that mixes up words and names, no match comes. -/
theorem firstMatch_rest_of_mixed {w rest : List Char} {k : Kind}
    (hm : firstMatch (w ++ rest) = some ⟨w, rest, .emit k⟩)
    (hmixed : k = .identifier ∧ String.ofList w ∈ reservedWords ∨
      k ∈ wordKinds ∧ ∃ c ∈ rest.head?, continuesName c = true) :
    rest ≠ [] ∧ firstMatch rest = none := by
  rcases hmixed with ⟨rfl, hv⟩ | ⟨hk, c, hc, hname⟩
  · have hstop : ¬ (rest ≠ [] → firstMatch rest ≠ none) := by
      intro hgoes
      have hw : w = (String.ofList w).toList ++ [] := by simp
      obtain ⟨d, hd, -⟩ := unreserved_of_firstMatch hm hgoes _ hv [] hw
      cases hd
    simpa using hstop
  · have hword := endsWord_iff.1 ((ends_iff_endsWord hk).1 (ends_of_firstMatch hm rfl)) c hc
    obtain ⟨cs, rfl⟩ := List.head?_eq_some_iff.1 hc
    refine ⟨List.cons_ne_nil c cs, firstMatch_eq_none_of_ne ?_ cs⟩
    rw [hname, hword]
    decide

/-- In a scan that reads its whole text, a reserved word is a token of its own kind, and neither a
word nor a name is followed by a character that goes on with words or with names. A single call
that mixes them up is followed by a fault at the next character. -/
theorem reserved_words_apart_from_names :
    (∀ (source : String) (ts : List Token), tokenize source = .ok ts → ∀ t ∈ ts,
      (t.lexeme ∈ reservedWords → t.kind ∈ wordKinds ∧ t.lexeme ∈ t.kind.spellings) ∧
      (∃ before after, t.StandsIn source.toList before after) ∧
      (t.kind = .identifier ∨ t.kind ∈ wordKinds →
        ∀ before after, t.StandsIn source.toList before after →
          ∀ c ∈ after.head?, continuesName c = false ∧ extendsWord c = false)) ∧
    ∀ (s s' : Scanner) (t : Token), s.nextToken = (.token t, s') →
      (t.kind = .identifier ∧ t.lexeme ∈ reservedWords ∨
        t.kind ∈ wordKinds ∧ ∃ c ∈ s'.rest.head?, continuesName c = true) →
      ∃ c ∈ s'.rest.head?, s'.nextToken = (.fault ⟨c, s'.position⟩, s') := by
  constructor
  · intro source ts hts t ht
    have hscan := tokenize_eq_ok_iff.1 hts
    refine ⟨fun hv => word_of_printable hv (printable_of_mem_tokens hscan t ht),
      exists_standsIn (by rwa [hscan]), ?_⟩
    intro hk before after hstands c hc
    obtain ⟨ps, left, hcuts, hcut⟩ := exists_cuts_of_scan source
    rw [hscan] at hcut
    obtain ⟨rfl, hleft⟩ := Feed.mk.inj hcut
    obtain rfl : left = [] := by simpa using hleft.symm
    obtain ⟨ps₁, ps₂, hps⟩ := List.append_of_mem (read_mem_of_mem ht)
    obtain ⟨hm, q, hafter⟩ := hcuts.read hps
    obtain ⟨-, rfl⟩ := hstands.unique (hcuts.standsIn hps)
    exact apart_of_ends hk (ends_of_firstMatch hm rfl) hafter.goes_on hc
  · intro s s' t hnext hmixed
    have hm := exists_match_of_nextToken hnext
    have hrest := firstMatch_rest_of_mixed hm (by rwa [String.ofList_toList])
    exact nextToken_refused hrest.1 hrest.2

/-- A fraction is no part of a name, but it keeps `if` from being a word. -/
theorem reserved_word_before_fraction :
    ∃ s t, (Scanner.start ['i', 'f', '½']).nextToken = (.token t, s) ∧ t.kind = .identifier ∧
      t.lexeme ∈ reservedWords ∧ s.nextToken = (.fault ⟨'½', s.position⟩, s) := by
  have hnext : (Scanner.start ['i', 'f', '½']).nextToken =
      (.token ⟨.identifier, "if", .start⟩, ⟨['i', 'f', '½'], ['½'], ⟨1, 2⟩⟩) := by
    decide +kernel
  have hword : "if" ∈ reservedWords := by decide
  obtain ⟨c, hc, hfault⟩ := reserved_words_apart_from_names.2 _ _ _ hnext (.inl ⟨rfl, hword⟩)
  cases hc
  exact ⟨_, _, hnext, rfl, hword, hfault⟩

end Scriptlet
