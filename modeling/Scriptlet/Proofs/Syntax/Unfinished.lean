import Scriptlet.Proofs.Syntax.Composition
import Scriptlet.Proofs.Syntax.Viable

/-!
# Scriptlet.Proofs.Syntax.Unfinished

Faults of a text that goes on in a new line. A token that is refused is refused whatever comes
after it, and so is a character that begins nothing. At the end of a text something is missing that
can still come: the agenda of the parser can always be completed (`exists_completion`).

What is left out are faults at a quote or a slash, since the string or the comment that begins
there may be closed in the lines that follow.
-/

namespace Scriptlet

/-- The characters with which strings and comments begin. -/
def openers : List Char := ['/', '"', '\'', '\x60']

theorem Quote.character_mem_openers (q : Quote) : q.character ∈ openers := by
  cases q <;> decide

theorem ofCharacter?_of_not_mem_openers {c : Char} (h : c ∉ openers) :
    Quote.ofCharacter? c = none := by
  cases hq : Quote.ofCharacter? c with
  | none => rfl
  | some q =>
    rw [Quote.ofCharacter?_eq_some_iff.1 hq] at h
    exact absurd q.character_mem_openers h

/-- A token that is refused is refused whatever comes after it. -/
theorem Stops.token_append {gs : List Goal} {feed feed' : Feed} {found expected : Kind}
    {p : Position} {more : List Token} (h : Stops gs feed (.unexpectedToken found expected p))
    (hmore : feed'.tokens = feed.tokens ++ more) :
    Stops gs feed' (.unexpectedToken found expected p) := by
  cases h with
  | @token read rest t left d htokens hpass hd hne =>
    have hread : feed'.tokens = read ++ t :: (rest ++ more) := by
      rw [hmore, htokens, List.append_assoc, List.cons_append]
    exact .token hread (hpass.before rfl) hd hne

/-- What the agenda of a program takes can be completed in the next line. -/
theorem exists_parse_nextLine {s : String} {ts : List Token} (hs : scan s = ⟨ts, none⟩)
    {left : List Goal} (hleft : consumeAll programGoals (ts.map Token.kind) = some left) :
    ∃ t p, parse (s ++ "\n" ++ t) = .ok p := by
  obtain ⟨ls, last, hlast, hnone⟩ := exists_completion hleft
  obtain ⟨t, us, hus, hls⟩ := exists_source_of_kinds ls
  have hpass : ∀ n, Passes programGoals (ts ++ us.map (Token.below n)) [] [] := by
    intro n
    refine ⟨last, ?_, hnone⟩
    rw [List.map_append, map_kind_below, hls]
    exact hlast
  have hscan := scan_nextLine hs t
  rw [tokenize_eq_ok_iff.1 hus] at hscan
  obtain ⟨p, -, hparse⟩ := parse_of_passes hscan (hpass _)
  exact ⟨t, p, hparse⟩

/-- A fault before the end of a text stays what it is when the text goes on in a new line, unless
it is at a character that begins strings or comments; at the end of a text there is always a way to
go on. -/
theorem parse_unfinished (s : String) :
    (∀ found expected p, parse s = .error (.unexpectedToken found expected p) →
      ∀ t, parse (s ++ "\n" ++ t) = .error (.unexpectedToken found expected p)) ∧
    (∀ f, parse s = .error (.lexical f) → f.character ∉ openers →
      ∀ t, parse (s ++ "\n" ++ t) = .error (.lexical f)) ∧
    ∀ expected, parse s = .error (.unexpectedEnd expected) →
      ∃ t p, parse (s ++ "\n" ++ t) = .ok p := by
  refine ⟨fun found expected p h t => ?_, fun f h hf t => ?_, fun expected h => ?_⟩
  · obtain ⟨more, hmore⟩ := exists_tokens_nextLine s t
    exact parse_of_stops ((stops_of_parse h).token_append hmore)
  · have hslash : f.character ≠ '/' := by
      intro heq
      exact hf (heq ▸ List.mem_cons_self)
    have hstop := stops_of_parse h
    have hfault : (scan s).fault? = some f := by
      cases hstop with
      | lexical hfault _ => exact hfault
    refine parse_of_stops ?_
    rwa [scan_nextLine_of_fault hfault hslash (ofCharacter?_of_not_mem_openers hf)]
  · cases stops_of_parse h with
    | ending hfault hpass _ =>
      obtain ⟨now, hnow, -⟩ := hpass
      have hs : scan s = ⟨(scan s).tokens, none⟩ := by rw [← hfault]
      exact exists_parse_nextLine hs hnow

/-- A string that is never closed does not hide the semicolon before it. -/
theorem parse_unfinished_semicolon :
    parse ";" = .error (.unexpectedToken .semicolon .identifier ⟨1, 0⟩) ∧
      parse ";\n\"" = .error (.unexpectedToken .semicolon .identifier ⟨1, 0⟩) :=
  ⟨parse_semicolon, (parse_unfinished ";").1 _ _ _ parse_semicolon "\""⟩

end Scriptlet
