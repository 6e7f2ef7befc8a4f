import Scriptlet.Diagnostic
import Scriptlet.Proofs.Scan.Standing
import Scriptlet.Proofs.Syntax.FirstFault

/-!
# Scriptlet.Proofs.Syntax.Pointing

What users are shown of a fault:

* `Fault.PointsAt f source p cs`  — at the column of `p`, the line `cs` has the character of a scan
                                    fault, the first character of the token that is refused, or its
                                    end.

`render_points` says that the line which is printed with a fault is that line of the source, and
that the fault points into it. Lines lose their line ends when they are shown, but no fault stands
at one: line feeds and carriage returns are blanks, and those are passed over.
-/

namespace Scriptlet

/-- The place `p` is that of the fault, and the line `cs` has there what the fault is about. -/
def Fault.PointsAt (source : String) (p : Position) (cs : List Char) : Fault → Prop
  | lexical f => f.position = p ∧ cs[p.column]? = some f.character
  | unexpectedToken _ _ position => position = p ∧
      ∃ k t, LongestViable (scan source) k ∧ (scan source).tokens[k]? = some t ∧
        t.position = p ∧ ∃ c ∈ t.lexeme.toList.head?, cs[p.column]? = some c
  | unexpectedEnd _ => p.line = source.toList.count '\n' + 1 ∧ p.column = cs.length

/-! ## Characters in their lines -/

theorem isBlank_return : isBlank '\r' = true := by decide +kernel

/-- A character that is no blank is shown in the line and at the column where it stands. -/
theorem getElem?_lineText_of_isBlank {c : Char} (hc : isBlank c = false)
    (before rest : List Char) :
    (lineText (before ++ c :: rest) (Position.start.advance before).line)[
      (Position.start.advance before).column]? = some c := by
  have hfeed : c ≠ '\n' := by
    rintro rfl
    rw [isBlank_lineFeed] at hc
    cases hc
  have hreturn : c ≠ '\r' := by
    rintro rfl
    rw [isBlank_return] at hc
    cases hc
  exact getElem?_lineText hfeed hreturn before rest

/-- A scan fault is shown at its character. -/
theorem getElem?_lineText_of_fault {source : String} {f : ScanFault}
    (h : (scan source).fault? = some f) :
    (lineText source.toList f.position.line)[f.position.column]? = some f.character := by
  obtain ⟨before, after, hstands, hm⟩ := fault_standsIn h
  rw [hstands.text, hstands.position]
  exact getElem?_lineText_of_isBlank (isBlank_of_firstMatch_eq_none hm) before after

/-- A token is shown where its lexeme begins. -/
theorem getElem?_lineText_of_token {source : String} {t : Token}
    (h : t ∈ (scan source).tokens) :
    ∃ c ∈ t.lexeme.toList.head?,
      (lineText source.toList t.position.line)[t.position.column]? = some c := by
  obtain ⟨before, after, hstands⟩ := exists_standsIn h
  obtain ⟨c, cs, hcs, hc⟩ := separates_head_lexeme (lexeme_of_mem_feed h)
  have hblank : isBlank c = false := (Bool.or_eq_false_iff.1 hc).1
  rw [hstands.text, hstands.position, hcs]
  exact ⟨c, rfl, getElem?_lineText_of_isBlank hblank before (cs ++ after)⟩

/-- The end of a text is shown after the last character of its last line. -/
theorem end_shown (cs : List Char) :
    (Position.start.advance cs).line = cs.count '\n' + 1 ∧
      (Position.start.advance cs).column =
        (lineText cs (Position.start.advance cs).line).length := by
  rw [lineText_end, Position.advance_start]
  exact ⟨rfl, rfl⟩

/-! ## Faults in their lines -/

theorem pointsAt_of_parse {source : String} {f : Fault} (h : parse source = .error f) :
    f.PointsAt source (f.shownAt source.toList)
      (lineText source.toList (f.shownAt source.toList).line) := by
  cases stops_of_parse h with
  | lexical hfault _ => exact ⟨rfl, getElem?_lineText_of_fault hfault⟩
  | @token read rest t left d htokens hpass hd hne =>
    have hlongest := longestViable_of_refused htokens hpass hd hne
    have ht : (scan source).tokens[read.length]? = some t := by simp [htokens]
    have hmem : t ∈ (scan source).tokens := List.mem_of_getElem? ht
    exact ⟨rfl, read.length, t, hlongest, ht, rfl, getElem?_lineText_of_token hmem⟩
  | ending _ _ _ => exact end_shown source.toList

/-- A fault is shown with the line of the source that it is about, and with the line and column, the
latter counted from one, at which it points into that line. -/
theorem render_points (file : String) {source : String} {f : Fault}
    (h : parse source = .error f) :
    ∃ p cs, cs = lineText source.toList p.line ∧ f.PointsAt source p cs ∧
      Diagnostic.render file source f = String.join (([
        "error[" ++ f.code ++ "]: " ++ f.message,
        "  --> " ++ file ++ ":" ++ (toString p.line ++ ":" ++ toString (p.column + 1)),
        "   |",
        String.ofList (padLeft 3 (toString p.line).toList) ++ " | " ++ String.ofList cs,
        "   | " ++ String.ofList (List.replicate p.column ' ') ++ "^"] ++
          Diagnostic.helpLines f).map fun l => l ++ "\n") := by
  refine ⟨f.shownAt source.toList, _, rfl, pointsAt_of_parse h, ?_⟩
  rw [← lineAt_eq]
  rfl

/-- A line that ends with a carriage return is shown without it. -/
theorem render_points_return :
    parse "a;@\r\n" = .error (.lexical ⟨'@', ⟨1, 2⟩⟩) ∧
      Diagnostic.render "f" "a;@\r\n" (.lexical ⟨'@', ⟨1, 2⟩⟩) =
        "error[E_LEX]: Unexpected character: '@'\n  --> f:1:3\n   |\n  1 | a;@\n   |   ^\n" := by
  have hscan : scan "a;@\r\n" =
      ⟨[⟨.identifier, "a", ⟨1, 0⟩⟩, ⟨.semicolon, ";", ⟨1, 1⟩⟩], some ⟨'@', ⟨1, 2⟩⟩⟩ := by
    decide +kernel
  have hparse : parse "a;@\r\n" = .error (.lexical ⟨'@', ⟨1, 2⟩⟩) := by
    refine parse_of_stops ?_
    rw [hscan]
    exact .lexical rfl ⟨[.statements none], rfl, rfl⟩
  obtain ⟨p, cs, hcs, ⟨rfl, -⟩, hrender⟩ := render_points "f" hparse
  obtain rfl : cs = ['a', ';', '@'] := by
    rw [hcs]
    decide
  refine ⟨hparse, hrender.trans ?_⟩
  decide +kernel

end Scriptlet
