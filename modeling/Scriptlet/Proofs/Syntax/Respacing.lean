import Scriptlet.Proofs.Scan.Spacing
import Scriptlet.Proofs.Syntax.FirstFault
import Scriptlet.Proofs.Syntax.Image

/-!
# Scriptlet.Proofs.Syntax.Respacing

The text between tokens does not matter to the parser. Its result comes from the kinds and lexemes
of the tokens alone, but for the position of a token that it refuses; `SameOutcome` says so of two
results. `parse_respaced` is the same for texts.
-/

namespace Scriptlet

/-- Results for two lists of tokens that differ at most in where the refused token stands. -/
inductive SameOutcome (ts us : List Token) :
    Except Fault Program → Except Fault Program → Prop where
  | accepted (p : Program) : SameOutcome ts us (.ok p) (.ok p)
  | token {i : Nat} {t u : Token} (found expected : Kind) : ts[i]? = some t → us[i]? = some u →
      SameOutcome ts us (.error (.unexpectedToken found expected t.position))
        (.error (.unexpectedToken found expected u.position))
  | ending (expected : Kind) :
      SameOutcome ts us (.error (.unexpectedEnd expected)) (.error (.unexpectedEnd expected))

/-- Tokens of the same kinds stop at the same fault, where the one that is refused stands. -/
theorem Stops.sameOutcome {ts us : List Token} {f g : Fault}
    (hf : Stops programGoals ⟨ts, none⟩ f) (hg : Stops programGoals ⟨us, none⟩ g)
    (hkinds : us.map Token.kind = ts.map Token.kind) :
    SameOutcome ts us (.error f) (.error g) := by
  cases hf with
  | lexical hfault _ => cases hfault
  | @token read rest t left d htokens hpass hd hne =>
    obtain rfl : ts = read ++ t :: rest := htokens
    rw [List.map_append] at hkinds
    obtain ⟨read', after, rfl, hread, hafter⟩ := List.map_eq_append_iff.1 hkinds
    obtain ⟨u, rest', rfl, hk, -⟩ := List.map_eq_cons_iff.1 hafter
    have hpass' : Passes programGoals read' (u :: rest') left := by
      refine (hpass.of_kinds hread).before ?_
      rw [nextKind_cons, nextKind_cons, hk]
    have hstop : Stops programGoals ⟨read' ++ u :: rest', none⟩ _ :=
      .token rfl hpass' (by rwa [hk]) (by rwa [hk])
    rw [hg.unique hstop, hk]
    have hlength : read'.length = read.length := by simpa using congrArg List.length hread
    exact .token (i := read.length) _ _ (by simp) (by simp [hlength])
  | ending _ hpass hd =>
    have hstop : Stops programGoals ⟨us, none⟩ _ := .ending rfl (hpass.of_kinds hkinds) hd
    rw [hg.unique hstop]
    exact .ending _

/-- Tokens with the same kinds and lexemes have the same result. -/
theorem sameOutcome_of_words {a b : String} {ts us : List Token} (ha : scan a = ⟨ts, none⟩)
    (hb : scan b = ⟨us, none⟩) (hwords : us.map Token.word = ts.map Token.word) :
    SameOutcome ts us (parse a) (parse b) := by
  have hkinds : us.map Token.kind = ts.map Token.kind := by
    simpa [Function.comp_def, Token.word] using congrArg (List.map Prod.fst) hwords
  rcases parse_outcome a with ⟨ts', p, hts, hp, hparse⟩ | ⟨f, hf, hparse⟩
  · rw [ha] at hts
    cases hts
    obtain ⟨q, hq, hparse'⟩ := parse_of_passes hb (hp.passes.of_kinds hkinds)
    have heq := (hq.eq_iff_contents_eq hp (printable_of_mem_tokens hb)
      (printable_of_mem_tokens ha)).2 (contents_congr hwords)
    rw [hparse, hparse', heq]
    exact .accepted p
  · rw [ha] at hf
    rcases parse_outcome b with ⟨us', q, hus, hq, -⟩ | ⟨g, hg, hparse'⟩
    · rw [hb] at hus
      cases hus
      exact absurd hf (Stops.not_of_passes rfl (hq.passes.of_kinds hkinds.symm))
    · rw [hb] at hg
      rw [hparse, hparse']
      exact hf.sameOutcome hg hkinds

/-- The text between the tokens of a source may be exchanged for other trivia, as long as tokens
that were apart stay apart: the tokens are the same but for their positions, and so is the
result. -/
theorem parse_respaced {source : String} {ts : List Token} (h : tokenize source = .ok ts) :
    (∃ xs tail, Spaced source xs tail) ∧
      ∀ xs ys tail tail', Spaced source xs tail → Respaces xs ys → FinalTrivia tail' →
        ∃ us, tokenize (String.ofList (printText ys tail')) = .ok us ∧
          us.map Token.word = ts.map Token.word ∧
          SameOutcome ts us (parse source) (parse (String.ofList (printText ys tail'))) := by
  refine ⟨exists_spaced h, ?_⟩
  intro xs ys tail tail' hsource hrespaces htail
  obtain ⟨us, hus, hwords⟩ := (hrespaces.spaced hsource htail).tokens
  obtain ⟨ts', hts', hwords'⟩ := hsource.tokens
  obtain rfl : ts = ts' := Except.ok.inj (h.symm.trans hts')
  have hsame : us.map Token.word = ts.map Token.word := by
    rw [hwords, hwords', hrespaces.word_eq]
  exact ⟨us, hus, hsame,
    sameOutcome_of_words (tokenize_eq_ok_iff.1 h) (tokenize_eq_ok_iff.1 hus) hsame⟩

/-- A name and a semicolon that touch, and the same with text around them. -/
theorem parse_respaced_touching :
    ∃ ts us, tokenize "a;" = .ok ts ∧ tokenize " a\n;//x" = .ok us ∧
      us.map Token.word = ts.map Token.word ∧
      SameOutcome ts us (parse "a;") (parse " a\n;//x") := by
  have hblank : Trivia [' '] := .blank (by decide +kernel) .nil
  have hfeed : Trivia ['\n'] := .blank isBlank_lineFeed .nil
  have hname : Kind.identifier.Printable ['a'] :=
    ⟨⟨'a', [], rfl, by decide +kernel, nofun⟩, fun _ => unreserved_iff.2 (by decide +kernel)⟩
  have hmark : Kind.semicolon.Printable [';'] := ⟨⟨";", by decide, rfl⟩, nofun⟩
  have hends : Kind.identifier.Ends [';'] := by
    rintro c ⟨⟩
    decide +kernel
  let xs : List Printed := [⟨[], .identifier, ['a']⟩, ⟨[], .semicolon, [';']⟩]
  let ys : List Printed := [⟨[' '], .identifier, ['a']⟩, ⟨['\n'], .semicolon, [';']⟩]
  have hback : ReadsBack xs [] := ⟨hname, hends, hmark, fun _ _ => rfl, trivial⟩
  have hgaps : ∀ x ∈ xs, Trivia x.gap := by simpa [xs] using Trivia.nil
  obtain ⟨ts, hscan, hwords⟩ := feed_of_readsBack hback hgaps (.inl .nil) ['a', ';'] .start
  have hts : tokenize "a;" = .ok ts := tokenize_eq_ok_iff.2 hscan
  have hspaced : Spaced "a;" xs [] := ⟨rfl, hgaps, .inl .nil, ts, hts, hwords⟩
  have hrespaces : Respaces xs ys :=
    ⟨.cons ⟨rfl, rfl⟩ (.cons ⟨rfl, rfl⟩ .nil), by simpa [ys] using ⟨hblank, hfeed⟩,
      .cons nofun .nil⟩
  obtain ⟨us, hus, hsame⟩ := (parse_respaced hts).2 xs ys [] ['/', '/', 'x'] hspaced hrespaces
    (.inr ⟨[], ['x'], .nil, by decide, rfl⟩)
  exact ⟨ts, us, hts, hus, hsame⟩

end Scriptlet
