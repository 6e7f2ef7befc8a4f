import Scriptlet.Proofs.Scan.Reserved
import Scriptlet.Proofs.Syntax.Expectation
import Scriptlet.Proofs.Syntax.Taking

/-!
# Scriptlet.Proofs.Syntax.Meaning

The texts of tokens and what the parser makes of them:

* `Token.WellSpelled t`     — the text of `t` is one for its kind.
* `State.ReadsMeanings s`   — where the parser asks for the meaning of a text, there is one.

A scanner gives well spelled tokens only (`wellSpelled_of_nextToken`). So the next token of a state
that is ready has a text of its kind (`Ready.lexeme`), and the parser, which meets such states only,
never has to make up the inside of a string or to refuse a number or an operator for its text.
-/

namespace Scriptlet

structure Token.WellSpelled (t : Token) : Prop where
  number : t.kind = .number → t.lexeme ≠ "" ∧ ∀ c ∈ t.lexeme.toList, '0' ≤ c ∧ c ≤ '9'
  string : t.kind = .string → ∃ (q : Quote) (inner : List Char),
    q.character ∉ inner ∧ t.lexeme.toList = q.character :: inner ++ [q.character] ∧
      Quote.unquote? t.lexeme.toList = some inner
  boolean : t.kind = .boolean → t.lexeme = "true" ∨ t.lexeme = "false"
  operator : t.kind = .operator → ∃ o, Operation.ofSymbol? t.lexeme = some o
  identifier : t.kind = .identifier → ∃ c cs, t.lexeme.toList = c :: cs ∧
    startsName c = true ∧ ∀ d ∈ cs, continuesName d = true
  other : t.kind ∉ [.number, .string, .boolean, .operator, .identifier] →
    t.kind.spelling? = some t.lexeme

/-- The parts of the parser that take a token for its meaning find one whenever they take it. -/
structure State.ReadsMeanings (s : State) : Prop where
  number : ∀ t next shorter, s.eat .number = .done t next shorter →
    ∃ x, Binary64.read t.lexeme.toList = some x ∧ s.number = .done (.number x) next shorter
  string : ∀ t next shorter, s.eat .string = .done t next shorter →
    ∃ inner, Quote.unquote? t.lexeme.toList = some inner ∧
      s.string = .done (.string (String.ofList inner)) next shorter
  operator : ∀ t next shorter, s.eat .operator = .done t next shorter →
    ∃ o, Operation.ofSymbol? t.lexeme = some o ∧
      s.operator = .done ⟨o, t.lexeme⟩ next shorter

/-! ## Texts of tokens -/

theorem spelling?_of_lexeme {k : Kind} {l : String}
    (hk : k ∉ [.number, .string, .boolean, .operator, .identifier]) (h : k.Lexeme l.toList) :
    k.spelling? = some l := by
  have hspelled : k.spelled = true := by
    cases k <;> first | rfl | exact absurd (by decide) hk
  obtain ⟨v, hv, hl⟩ := (Kind.lexeme_iff_of_spelled hspelled).1 h
  obtain rfl : l = v := String.toList_inj.1 hl
  have hspellings : k.spellings = k.spelling?.toList := by
    cases k <;> first | rfl | exact absurd (by decide) hk
  rw [hspellings] at hv
  exact Option.mem_toList.1 hv

theorem wellSpelled_of_lexeme {t : Token} (h : t.kind.Lexeme t.lexeme.toList) :
    t.WellSpelled where
  number hk := by
    rw [hk] at h
    obtain ⟨hne, hdigits⟩ := h
    refine ⟨by simpa using hne, fun c hc => ?_⟩
    simpa [isDigit] using hdigits c hc
  string hk := by
    rw [hk] at h
    obtain ⟨q, inner, hinner, hl⟩ := h
    exact ⟨q, inner, hinner, hl, Quote.unquote?_eq_some_iff.2 ⟨q, hl⟩⟩
  boolean hk := by
    rw [hk] at h
    exact boolean_of_lexeme h
  operator hk := by
    rw [hk] at h
    exact ofSymbol?_of_lexeme h
  identifier hk := by
    rw [hk] at h
    exact h
  other hk := spelling?_of_lexeme hk h

theorem wellSpelled_of_nextToken {s s' : Scanner} {t : Token} (h : s.nextToken = (.token t, s')) :
    t.WellSpelled :=
  wellSpelled_of_lexeme (lexeme_of_firstMatch (exists_match_of_nextToken h) rfl)

/-! ## Meanings of texts -/

namespace State

/-- The last token of a text is taken if it is of the kind that has to come. -/
theorem exists_eat_of_rest {s : State} {t : Token} (hl : s.lookahead = some t)
    (hrest : s.scanner.rest = []) :
    ∃ next shorter, s.eat t.kind = .done t next shorter := by
  unfold eat
  split
  · rename_i hnone
    cases hl.symm.trans hnone
  · rename_i u hu
    obtain rfl : t = u := Option.some.inj (hl.symm.trans hu)
    rw [if_pos rfl]
    split
    · rename_i hn
      cases hn.symm.trans (Scanner.nextToken_finish hrest)
    · rename_i hn
      exact ⟨_, remaining_lt_of_finish hl hn, rfl⟩
    · rename_i hn
      cases hn.symm.trans (Scanner.nextToken_finish hrest)

theorem meaning_of_read {α : Type} {s next : State} {k : Kind} {t : Token}
    {shorter : next.remaining < s.remaining} (heat : s.eat k = .done t next shorter)
    {read : String → Option α} {x : α} (hx : read t.lexeme = some x) :
    meaning k read (s.eat k) = .done x next shorter := by
  rw [heat, meaning]
  simp only [hx]

theorem Ready.readsMeanings {s : State} (h : s.Ready) : s.ReadsMeanings where
  number t next shorter heat := by
    obtain ⟨hk, hl⟩ := eat_eq_done heat
    obtain ⟨x, hx⟩ := read_of_lexeme (hk ▸ h.lexeme t hl)
    exact ⟨x, hx, meaning_of_read heat (by rw [hx]; rfl)⟩
  string t next shorter heat := by
    obtain ⟨hk, hl⟩ := eat_eq_done heat
    obtain ⟨inner, hinner⟩ := unquote?_of_lexeme (hk ▸ h.lexeme t hl)
    refine ⟨inner, hinner, ?_⟩
    rw [State.string, heat, Step.map, hinner, Option.getD_some]
  operator t next shorter heat := by
    obtain ⟨hk, hl⟩ := eat_eq_done heat
    obtain ⟨o, ho⟩ := ofSymbol?_of_lexeme (hk ▸ h.lexeme t hl)
    exact ⟨o, ho, meaning_of_read heat (by rw [ho]; rfl)⟩

end State

/-- Each token of a scanner has a text for its kind. Wherever the parser is in a text, it finds the
meaning of each number, string and operator that it takes, and it goes on to a place of the same
text. No token is refused that is of the kind that has to come. -/
theorem lexemes_have_meanings :
    (∀ (s s' : Scanner) (t : Token), s.nextToken = (.token t, s') → t.WellSpelled) ∧
    ∀ source : String,
      (∀ s₀, State.prime source.toList = .ok s₀ → ∀ taken s, s₀.Takes taken s →
        s.ReadsMeanings ∧
          ∀ (s₁ : State) (α : Type) (x : Step s₁ α), Part s x → x.Moves s) ∧
      ∀ k p, parse source ≠ .error (.unexpectedToken k k p) := by
  refine ⟨fun s s' t => wellSpelled_of_nextToken, fun source => ⟨?_, ?_⟩⟩
  · intro s₀ hprime taken s hs
    exact ⟨(hs.scan_eq hprime).1.readsMeanings, fun _ _ _ => Part.moves⟩
  · intro k p h
    exact found_ne_expected h rfl

theorem lexemes_have_meanings_quoted :
    ∃ s t s₀ next shorter, (Scanner.start "'a'".toList).nextToken = (.token t, s) ∧
      t.kind = .string ∧ (∃ inner, Quote.unquote? t.lexeme.toList = some inner) ∧
      State.prime "'a'".toList = .ok s₀ ∧ s₀.string = .done (.string "a") next shorter := by
  have hnext : (Scanner.start "'a'".toList).nextToken =
      (.token ⟨.string, "'a'", .start⟩, ⟨"'a'".toList, [], ⟨1, 3⟩⟩) := by decide +kernel
  obtain ⟨_, inner, -, -, hinner⟩ := (lexemes_have_meanings.1 _ _ _ hnext).string rfl
  have hprime : State.prime "'a'".toList =
      .ok ⟨⟨"'a'".toList, [], ⟨1, 3⟩⟩, some ⟨.string, "'a'", .start⟩⟩ := by
    rw [State.prime, hnext]
  have heat : ∃ next shorter,
      (State.mk ⟨"'a'".toList, [], ⟨1, 3⟩⟩ (some ⟨.string, "'a'", .start⟩)).eat .string =
        .done ⟨.string, "'a'", .start⟩ next shorter :=
    State.exists_eat_of_rest (t := ⟨.string, "'a'", .start⟩) rfl rfl
  obtain ⟨next, shorter, heat⟩ := heat
  obtain ⟨hreads, -⟩ := (lexemes_have_meanings.2 "'a'").1 _ hprime [] _ (.refl _)
  obtain ⟨text, htext, hstring⟩ := hreads.string _ next shorter heat
  obtain rfl : ['a'] = text := by
    have hquoted : Quote.unquote? "'a'".toList = some ['a'] := by decide
    exact Option.some.inj (hquoted.symm.trans htext)
  exact ⟨_, _, _, next, shorter, hnext, rfl, ⟨inner, hinner⟩, hprime, hstring⟩

end Scriptlet
