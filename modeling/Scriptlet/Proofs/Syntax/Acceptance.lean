import Mathlib.Data.Set.Subsingleton
import Scriptlet.Parser.Program
import Scriptlet.Proofs.Syntax.Passing
import Scriptlet.Proofs.Syntax.ReadingStatement

/-!
# Scriptlet.Proofs.Syntax.Acceptance

The parser accepts the texts whose tokens have a tree, and answers with that tree.

`parse_outcome` is what reading a text comes to. Its answer is a tree of the tokens, or a fault at
which the tokens stop. Tokens that have a tree pass, so they stop at no fault (`parse_of_passes`),
and the tree they have is the one that the parser found, since there is no other. In the same way
tokens that stop have no tree and no other fault (`parse_of_stops`).
-/

namespace Scriptlet

theorem parse_of_done {source : String} {s last : State} {body : List Statement}
    {shorter : last.remaining < s.remaining} (hprime : State.prime source.toList = .ok s)
    (h : s.statements none = .done body last shorter) : parse source = .ok ⟨body⟩ := by
  rw [parse, parseChars, hprime]
  simp only [State.program, h, Step.map]

theorem parse_of_failed {source : String} {s stop : State} {f : Fault}
    (hprime : State.prime source.toList = .ok s) (h : s.statements none = .failed f stop) :
    parse source = .error f := by
  rw [parse, parseChars, hprime]
  simp only [State.program, h, Step.map]

theorem parse_outcome (source : String) :
    (∃ ts p, scan source = ⟨ts, none⟩ ∧ Derives ts p ∧ parse source = .ok p) ∨
      ∃ f, Stops programGoals (scan source) f ∧ parse source = .error f := by
  cases hprime : State.prime source.toList with
  | error fault =>
    right
    refine ⟨.lexical fault, ?_, by rw [parse, parseChars, hprime]⟩
    rw [scan, State.feed_of_prime_error hprime]
    exact .lexical rfl (Passes.refl _ _)
  | ok s =>
    obtain ⟨hready, hfeed⟩ := State.ready_prime hprime
    have hmeets := State.statements_meets hready none
    rw [hfeed, ← scan] at hmeets
    cases hx : s.statements none with
    | failed f stop =>
      rw [hx] at hmeets
      right
      exact ⟨f, hmeets [], parse_of_failed hprime hx⟩
    | done body next shorter =>
      rw [hx] at hmeets
      obtain ⟨hnext, read, hread, ⟨hbody, hne, hend⟩, -⟩ := hmeets
      left
      refine ⟨read, ⟨body⟩, ?_, ⟨hbody, hne⟩, parse_of_done hprime hx⟩
      rw [or_self, ← hnext.kind?_eq, State.kind?, Option.map_eq_none_iff] at hend
      rw [hread, hnext.feed_of_none hend, List.append_nil]

theorem parse_of_passes {source : String} {ts : List Token} (hts : scan source = ⟨ts, none⟩)
    (hpass : Passes programGoals ts [] []) : ∃ p, Derives ts p ∧ parse source = .ok p := by
  rcases parse_outcome source with ⟨us, p, hus, hp, hparse⟩ | ⟨f, hstops, -⟩
  · rw [hts] at hus
    cases hus
    exact ⟨p, hp, hparse⟩
  · rw [hts] at hstops
    exact absurd hstops (Stops.not_of_passes rfl hpass)

/-- A text is accepted if nothing has to come after the kinds of its tokens. -/
theorem parse_of_kinds {source : String} {left : List Goal} (hfault : (scan source).fault? = none)
    (hkinds : consumeAll programGoals ((scan source).tokens.map Token.kind) = some left)
    (hend : demandOf left none = none) :
    ∃ p, tokenize source = .ok (scan source).tokens ∧ parse source = .ok p := by
  have hscan : scan source = ⟨(scan source).tokens, none⟩ := congrArg (Feed.mk _) hfault
  obtain ⟨p, -, hparse⟩ := parse_of_passes hscan ⟨left, hkinds, hend⟩
  exact ⟨p, tokenize_eq_ok_iff.2 hscan, hparse⟩

theorem parse_of_derives {source : String} {ts : List Token} {p : Program}
    (hts : scan source = ⟨ts, none⟩) (hp : Derives ts p) : parse source = .ok p := by
  obtain ⟨q, hq, hparse⟩ := parse_of_passes hts hp.passes
  rw [hp.unique hq, hparse]

/-- The parser reports the fault at which the tokens of a text stop. -/
theorem parse_of_stops {source : String} {f : Fault} (h : Stops programGoals (scan source) f) :
    parse source = .error f := by
  rcases parse_outcome source with ⟨ts, p, hts, hp, -⟩ | ⟨g, hg, hparse⟩
  · rw [hts] at h
    exact absurd h (Stops.not_of_passes rfl hp.passes)
  · rw [hparse, h.unique hg]

theorem stops_of_parse {source : String} {f : Fault} (h : parse source = .error f) :
    Stops programGoals (scan source) f := by
  rcases parse_outcome source with ⟨ts, p, -, -, hparse⟩ | ⟨g, hg, hparse⟩
  · cases h.symm.trans hparse
  · rwa [Except.error.inj (h.symm.trans hparse)]

theorem derives_of_parse {source : String} {p : Program} (h : parse source = .ok p) :
    ∃ ts, scan source = ⟨ts, none⟩ ∧ Derives ts p := by
  rcases parse_outcome source with ⟨ts, q, hts, hq, hparse⟩ | ⟨f, -, hf⟩
  · rw [h] at hparse
    cases hparse
    exact ⟨ts, hts, hq⟩
  · rw [h] at hf
    cases hf

/-- A text is accepted with a program if and only if the program is the tree of its tokens, and no
tokens have two trees. -/
theorem parse_iff_derives :
    (∀ (source : String) (p : Program),
      parse source = .ok p ↔ ∃ ts, tokenize source = .ok ts ∧ Derives ts p) ∧
    ∀ ts, {p | Derives ts p}.Subsingleton := by
  constructor
  · intro source p
    constructor
    · intro hparse
      rcases parse_outcome source with ⟨ts, q, hts, hq, hq'⟩ | ⟨f, -, hf⟩
      · rw [hparse] at hq'
        cases hq'
        exact ⟨ts, tokenize_eq_ok_iff.2 hts, hq⟩
      · rw [hparse] at hf
        cases hf
    · rintro ⟨ts, hts, hp⟩
      obtain ⟨q, hq, hparse⟩ := parse_of_passes (tokenize_eq_ok_iff.1 hts) hp.passes
      rw [hp.unique hq, hparse]
  · intro ts p hp q hq
    exact hp.unique hq

end Scriptlet
