import Scriptlet.Proofs.Scan.Boundary
import Scriptlet.Proofs.Scan.Printing
import Scriptlet.Proofs.Syntax.Acceptance
import Scriptlet.Proofs.Syntax.Expressible

/-!
# Scriptlet.Proofs.Syntax.Image

The programs that some text has, and what such a program tells about its texts:

* `Program.Expressible`    — a statement at least, and an expressible tree.
* `printTokens`            — the texts of some tokens, each after a blank.
* `parse_printTokens`      — the text of tokens that have a tree is read as that tree.
* `exists_source_iff`      — exactly the expressible programs are read from some text.
* `equal_iff_contents_eq`  — texts have one program if and only if their tokens have the same
                             contents.
-/

namespace Scriptlet

structure Program.Expressible (p : Program) : Prop where
  nonempty : p.statements ≠ []
  body : Scriptlet.Expressible .body p.statements

theorem lexemes_of_printable {ts : List Token} (h : ∀ t ∈ ts, t.Printable) : Lexemes ts :=
  fun t ht => (h t ht).1

namespace Derives

variable {ts us : List Token} {p q : Program}

theorem expressible (h : Derives ts p) (hts : ∀ t ∈ ts, t.Printable) : p.Expressible :=
  ⟨h.nonempty, h.body.expressible hts⟩

/-- Programs of printable tokens are the same exactly if their tokens have the same contents. -/
theorem eq_iff_contents_eq (hp : Derives ts p) (hq : Derives us q) (hts : ∀ t ∈ ts, t.Printable)
    (hus : ∀ u ∈ us, u.Printable) : p = q ↔ contents ts = contents us := by
  rw [hp.contents_eq (lexemes_of_printable hts), hq.contents_eq (lexemes_of_printable hus)]
  constructor
  · rintro rfl
    rfl
  · intro h
    obtain ⟨b⟩ := p
    obtain ⟨b'⟩ := q
    have hbody := (hp.expressible hts).body.eq_of_bodyContents (hq.expressible hus).body h
    exact congrArg Program.mk hbody

end Derives

theorem Program.Expressible.equal_iff {p q : Program} (hp : p.Expressible) (hq : q.Expressible) :
    p.equal q = true ↔ p = q := by
  obtain ⟨b⟩ := p
  obtain ⟨b'⟩ := q
  have hbodies : equalBodies b b' = true ↔ b = b' := hp.body.equal_iff hq.body
  rw [Program.equal, hbodies, Program.mk.injEq]

/-! ## Printing tokens -/

def Token.printed (t : Token) : Printed := ⟨[' '], t.kind, t.lexeme.toList⟩

def printTokens (ts : List Token) : String := String.ofList (printText (ts.map Token.printed) [])

theorem scan_printTokens {ts : List Token} (h : ∀ t ∈ ts, t.Printable) :
    ∃ us, scan (printTokens ts) = ⟨us, none⟩ ∧
      us.map (fun u => (u.kind, u.lexeme)) = ts.map fun t => (t.kind, t.lexeme) := by
  have hprinted : ∀ x ∈ ts.map Token.printed, x.gap = [' '] ∧ x.kind.Printable x.lexeme := by
    intro x hx
    obtain ⟨t, ht, rfl⟩ := List.mem_map.1 hx
    exact ⟨rfl, h t ht⟩
  obtain ⟨us, hfeed, hus⟩ := @feed_printText (ts.map Token.printed) []
    (fun x hx => (hprinted x hx).2) (fun x hx => (hprinted x hx).1 ▸ trivia_space)
    (fun x hx => by simp [(hprinted x (List.mem_of_mem_tail hx)).1]) (.inl .nil)
    (printText (ts.map Token.printed) []) .start
  refine ⟨us, ?_, ?_⟩
  · rw [scan, printTokens, String.toList_ofList, Scanner.start, hfeed]
  · rw [hus, List.map_map]
    exact List.map_congr_left fun t _ => by simp [Token.printed]

/-- A text with the words of tokens that have a tree is read as that tree. -/
theorem parse_of_words {source : String} {ts us : List Token} {p : Program} (h : Derives ts p)
    (hts : ∀ t ∈ ts, t.Printable) (hus : scan source = ⟨us, none⟩)
    (hwords : us.map (fun u => (u.kind, u.lexeme)) = ts.map fun t => (t.kind, t.lexeme)) :
    parse source = .ok p := by
  have hkinds : us.map Token.kind = ts.map Token.kind := by
    simpa [Function.comp_def] using congrArg (List.map Prod.fst) hwords
  obtain ⟨q, hq, hparse⟩ := parse_of_passes hus (h.passes.of_kinds hkinds)
  have heq := (hq.eq_iff_contents_eq h (printable_of_mem_tokens hus) hts).2 (contents_congr hwords)
  rw [hparse, heq]

theorem parse_printTokens {ts : List Token} {p : Program} (h : Derives ts p)
    (hts : ∀ t ∈ ts, t.Printable) : parse (printTokens ts) = .ok p := by
  obtain ⟨us, hus, hwords⟩ := scan_printTokens hts
  exact parse_of_words h hts hus hwords

/-- A text for the contents of a program. -/
def Program.print (p : Program) : String := printTokens (p.contents.map Content.token)

theorem Program.Expressible.parse_print {p : Program} (h : p.Expressible) :
    parse p.print = .ok p := by
  refine parse_printTokens ⟨h.body.derives, h.nonempty⟩ fun t ht => ?_
  obtain ⟨c, hc, rfl⟩ := List.mem_map.1 ht
  exact h.body.printable c hc

/-! ## The programs of texts -/

theorem expressible_of_parse {source : String} {p : Program} (h : parse source = .ok p) :
    p.Expressible := by
  obtain ⟨ts, hts, hp⟩ := derives_of_parse h
  exact hp.expressible (printable_of_mem_tokens hts)

/-- A program is read from some text if and only if it is expressible. -/
theorem exists_source_iff (p : Program) : (∃ source, parse source = .ok p) ↔ p.Expressible := by
  constructor
  · rintro ⟨source, h⟩
    exact expressible_of_parse h
  · intro h
    exact ⟨p.print, h.parse_print⟩

/-- Two texts have equal programs if and only if their tokens have the same contents, which are
those of the programs. -/
theorem equal_iff_contents_eq {a b : String} {p q : Program} (ha : parse a = .ok p)
    (hb : parse b = .ok q) :
    ∃ ts us, tokenize a = .ok ts ∧ tokenize b = .ok us ∧
      contents ts = p.contents ∧ contents us = q.contents ∧
      (p.equal q = true ↔ contents ts = contents us) ∧ (p = q ↔ contents ts = contents us) := by
  obtain ⟨ts, hts, hp⟩ := derives_of_parse ha
  obtain ⟨us, hus, hq⟩ := derives_of_parse hb
  have hts' := printable_of_mem_tokens hts
  have hus' := printable_of_mem_tokens hus
  have heq := hp.eq_iff_contents_eq hq hts' hus'
  refine ⟨ts, us, tokenize_eq_ok_iff.2 hts, tokenize_eq_ok_iff.2 hus,
    hp.contents_eq (lexemes_of_printable hts'), hq.contents_eq (lexemes_of_printable hus'), ?_, heq⟩
  rw [(hp.expressible hts').equal_iff (hq.expressible hus'), heq]

/-- A function with one parameter, and a comma after it. -/
def trailingComma : List Token :=
  [Content.mark .functionWord, .name "f", .mark .openParen, .name "x", .mark .comma,
    .mark .closeParen, .mark .openBrace, .mark .closeBrace].map Content.token

theorem contents_trailingComma :
    ∃ ts us, tokenize (printTokens trailingComma) = .ok ts ∧
      tokenize (Program.print ⟨[.function "f" ["x"] []]⟩) = .ok us ∧ contents ts = contents us := by
  have hname : ∀ n ∈ ["f", "x"], IsName n := by
    intro n hn
    simp only [List.mem_cons, List.not_mem_nil, or_false] at hn
    rcases hn with rfl | rfl <;>
      exact ⟨⟨_, [], rfl, by decide +kernel, nofun⟩, fun _ => unreserved_iff.2 (by decide +kernel)⟩
  have hfunction : Derives trailingComma ⟨[.function "f" ["x"] []]⟩ := by
    have hbody := DerivesPhrase.cons (.function (f := (Content.mark .functionWord).token)
      (n := (Content.name "f").token) rfl rfl
      (.some (o := (Content.mark .openParen).token) (n := (Content.name "x").token) rfl rfl
        (.trailing (m := (Content.mark .comma).token) (c := (Content.mark .closeParen).token)
          rfl rfl))
      (.braces (o := (Content.mark .openBrace).token) (c := (Content.mark .closeBrace).token) rfl
        .nil rfl)) .nil
    exact ⟨hbody, nofun⟩
  have hprintable : ∀ t ∈ trailingComma, t.Printable := by
    simp only [trailingComma, List.forall_mem_map, List.forall_mem_cons]
    exact ⟨Content.printable_mark rfl, (hname "f" (by simp)).printable, Content.printable_mark rfl,
      (hname "x" (by simp)).printable, Content.printable_mark rfl, Content.printable_mark rfl,
      Content.printable_mark rfl, Content.printable_mark rfl, nofun⟩
  have hparse := parse_printTokens hfunction hprintable
  obtain ⟨ts, us, hts, hus, -, -, -, heq⟩ :=
    equal_iff_contents_eq hparse (expressible_of_parse hparse).parse_print
  exact ⟨ts, us, hts, hus, heq.1 rfl⟩

end Scriptlet
