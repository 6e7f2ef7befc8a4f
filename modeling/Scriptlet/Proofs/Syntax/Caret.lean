import Scriptlet.Proofs.Syntax.Pointing

/-!
# Scriptlet.Proofs.Syntax.Caret

Where the caret of a diagnostic stands. The line of the source has a number of at least three
characters and a bar between two blanks in front of it, the caret three blanks, a bar and one blank.
So the caret never stands under the character that it is for: `caret_left_of_fault` says how far to
the left of it, by the digits of the line number.

A diagnostic is taken apart as a text, at its line feeds. `splitOn_render` says that this gives back
the lines it was made of, since none of them has a line feed of its own.
-/

namespace Scriptlet

/-! ## Lines without line feeds -/

theorem lineFeed_not_mem_splitOn {cs line : List Char} (h : line ∈ cs.splitOn '\n') :
    '\n' ∉ line := by
  induction cs generalizing line with
  | nil =>
    rw [List.splitOn_nil, List.mem_singleton] at h
    rw [h]
    exact List.not_mem_nil
  | cons c cs ih =>
    obtain ⟨first, others, hsplit⟩ := List.exists_cons_of_ne_nil (List.splitOn_ne_nil '\n' cs)
    rw [hsplit] at ih
    rw [List.splitOn_cons_eq_if_modifyHead, hsplit] at h
    by_cases hc : c = '\n'
    · rw [if_pos (by simpa using hc), List.mem_cons] at h
      rcases h with rfl | h
      · exact List.not_mem_nil
      · exact ih h
    · rw [if_neg (by simpa using hc), List.modifyHead_cons, List.mem_cons] at h
      rcases h with rfl | h
      · exact List.not_mem_cons_of_ne_of_not_mem (Ne.symm hc) (ih List.mem_cons_self)
      · exact ih (List.mem_cons_of_mem _ h)

theorem lineFeed_not_mem_withoutReturn {line : List Char} (h : '\n' ∉ line) :
    '\n' ∉ withoutReturn line := by
  unfold withoutReturn
  split
  · exact fun hmem => h (List.dropLast_subset _ hmem)
  · exact h

theorem lineFeed_not_mem_firstLine {lines : List (List Char)} (h : ∀ l ∈ lines, '\n' ∉ l) :
    '\n' ∉ firstLine lines := by
  match lines with
  | [] => exact List.not_mem_nil
  | [last] => exact h last List.mem_cons_self
  | ended :: next :: lines => exact lineFeed_not_mem_withoutReturn (h ended List.mem_cons_self)

theorem lineFeed_not_mem_lineAt (cs : List Char) (number : Nat) : '\n' ∉ lineAt cs number := by
  rw [lineAt_eq]
  exact lineFeed_not_mem_firstLine fun l hl => lineFeed_not_mem_splitOn (List.mem_of_mem_drop hl)

/-- A text that stays within one line. -/
def OneLine (s : String) : Prop := '\n' ∉ s.toList

instance (s : String) : Decidable (OneLine s) := inferInstanceAs (Decidable ('\n' ∉ s.toList))

theorem OneLine.append {s t : String} (hs : OneLine s) (ht : OneLine t) : OneLine (s ++ t) := by
  rw [OneLine, String.toList_append, List.mem_append]
  exact not_or.2 ⟨hs, ht⟩

theorem OneLine.ofList {cs : List Char} (h : '\n' ∉ cs) : OneLine (String.ofList cs) := by
  rwa [OneLine, String.toList_ofList]

theorem oneLine_toString (n : Nat) : OneLine (toString n) := by
  intro h
  have hdigit := Nat.isDigit_of_mem_toDigits (by decide) (by decide) (Nat.toList_repr (n := n) ▸ h)
  revert hdigit
  decide

theorem Kind.oneLine_name (k : Kind) : OneLine k.name := by
  cases k <;> decide

theorem Position.oneLine_text (p : Position) : OneLine p.text :=
  ((oneLine_toString _).append (by decide)).append (oneLine_toString _)

theorem Fault.oneLine_code (f : Fault) : OneLine f.code := by
  cases f with
  | lexical f => exact (by decide : OneLine "E_LEX")
  | unexpectedToken found expected p => exact (by decide : OneLine "E_UNEXPECTED_TOKEN")
  | unexpectedEnd expected => exact (by decide : OneLine "E_UNEXPECTED_EOF")

/-- No fault is about a line feed. -/
theorem oneLine_message {source : String} {f : Fault} (h : parse source = .error f) :
    OneLine f.message := by
  cases stops_of_parse h with
  | @lexical _ f hfault _ =>
    obtain ⟨before, after, -, hm⟩ := fault_standsIn hfault
    have hblank := isBlank_of_firstMatch_eq_none hm
    have hc : '\n' ∉ [f.character] := by
      intro hmem
      rw [← List.mem_singleton.1 hmem, isBlank_lineFeed] at hblank
      cases hblank
    exact (OneLine.append (by decide) (.ofList hc)).append (by decide)
  | @token read rest t left d _ _ _ _ =>
    exact (((OneLine.append (by decide) (Kind.oneLine_name _)).append (by decide)).append
      (Kind.oneLine_name _)).append (by decide)
  | ending _ _ _ => exact OneLine.append (by decide) (Kind.oneLine_name _)

namespace Diagnostic

theorem oneLine_sourceLine (source : List Char) (p : Position) : OneLine (sourceLine source p) := by
  have hnumber : '\n' ∉ padLeft 3 (toString p.line).toList := by
    rw [padLeft, List.mem_append, List.mem_replicate]
    rintro (⟨-, h⟩ | h)
    · cases h
    · exact oneLine_toString p.line h
  exact (OneLine.append (.ofList hnumber) (by decide)).append
    (.ofList (lineFeed_not_mem_lineAt source p.line))

theorem oneLine_caretLine (p : Position) : OneLine (caretLine p) := by
  have hblanks : '\n' ∉ List.replicate p.column ' ' := by
    rw [List.mem_replicate]
    rintro ⟨-, h⟩
    cases h
  exact (OneLine.append (by decide) (.ofList hblanks)).append (by decide)

theorem oneLine_lines {file source : String} (hfile : OneLine file) {f : Fault}
    (h : parse source = .error f) : ∀ l ∈ lines file source.toList f, OneLine l := by
  have hhead : OneLine ("error[" ++ f.code ++ "]: " ++ f.message) :=
    ((OneLine.append (by decide) f.oneLine_code).append (by decide)).append (oneLine_message h)
  have hplace : OneLine ("  --> " ++ file ++ ":" ++ (f.shownAt source.toList).text) :=
    ((OneLine.append (by decide) hfile).append (by decide)).append (Position.oneLine_text _)
  have hhelp : ∀ l ∈ helpLines f, OneLine l := by
    unfold helpLines
    split
    · simpa using OneLine.append (by decide) (Kind.oneLine_name _)
    · exact nofun
  simp only [lines, List.forall_mem_append, List.forall_mem_cons]
  exact ⟨⟨hhead, hplace, by decide, oneLine_sourceLine _ _, oneLine_caretLine _, nofun⟩, hhelp⟩

/-! ## Lines of a diagnostic -/

theorem splitOn_flatMap {ls : List (List Char)} (h : ∀ l ∈ ls, '\n' ∉ l) :
    (ls.flatMap (· ++ ['\n'])).splitOn '\n' = ls ++ [[]] := by
  induction ls with
  | nil => exact List.splitOn_nil '\n'
  | cons l ls ih =>
    rw [List.flatMap_cons, List.append_assoc, List.singleton_append,
      List.splitOn_append_cons_self_of_not_mem (h l List.mem_cons_self),
      ih fun l hl => h l (List.mem_cons_of_mem _ hl)]
    rfl

/-- A diagnostic, cut at its line feeds, is the lines that it was made of. -/
theorem splitOn_render {file source : String} (hfile : OneLine file) {f : Fault}
    (h : parse source = .error f) :
    (render file source f).toList.splitOn '\n' =
      (lines file source.toList f).map String.toList ++ [[]] := by
  have hlines := oneLine_lines hfile h
  rw [render, String.toList_join, List.flatMap_map]
  rw [← splitOn_flatMap, List.flatMap_map]
  · simp
  · simpa [OneLine] using hlines

/-! ## The two columns -/

theorem length_padLeft (width : Nat) (cs : List Char) :
    (padLeft width cs).length = max width cs.length := by
  rw [padLeft, List.length_append, List.length_replicate]
  omega

theorem idxOf_caretLine (p : Position) : (caretLine p).toList.idxOf '^' = 5 + p.column := by
  have hmargin : '^' ∉ margin.toList := by decide
  have hblanks : '^' ∉ List.replicate p.column ' ' := by
    rw [List.mem_replicate]
    rintro ⟨-, h⟩
    cases h
  rw [caretLine, String.toList_append, String.toList_append, String.toList_ofList,
    List.idxOf_append_of_notMem, List.length_append, List.length_replicate]
  · rfl
  · rw [List.mem_append]
    exact not_or.2 ⟨hmargin, hblanks⟩

end Diagnostic

/-- The caret of a fault stands to the left of the character that it is for: by one place if the
line number has up to three digits, and by one place more for each further digit. -/
theorem caret_left_of_fault (file : String) (hfile : '\n' ∉ file.toList) {source : String}
    {f : Fault} (h : parse source = .error f) {p : Position} (hp : f.position? = some p) :
    ∃ gutter caret,
      ((Diagnostic.render file source f).toList.splitOn '\n')[3]? =
        some (gutter ++ lineText source.toList p.line) ∧
      ((Diagnostic.render file source f).toList.splitOn '\n')[4]? = some caret ∧
      f.PointsAt source p (lineText source.toList p.line) ∧
      '^' ∈ caret ∧
      gutter.length + p.column = caret.idxOf '^' + max 1 ((toString p.line).length - 2) := by
  have hshown : f.shownAt source.toList = p := by rw [Fault.shownAt, hp]; rfl
  have hpoints := pointsAt_of_parse h
  rw [hshown] at hpoints
  refine ⟨padLeft 3 (toString p.line).toList ++ [' ', '|', ' '],
    (Diagnostic.caretLine p).toList, ?_, ?_, hpoints, ?_, ?_⟩
  · rw [Diagnostic.splitOn_render hfile h, ← lineAt_eq]
    simp [Diagnostic.lines, Diagnostic.sourceLine, hshown]
  · rw [Diagnostic.splitOn_render hfile h]
    simp [Diagnostic.lines, hshown]
  · simp [Diagnostic.caretLine]
  · rw [Diagnostic.idxOf_caretLine, List.length_append, Diagnostic.length_padLeft,
      String.length_toList]
    simp only [List.length_cons, List.length_nil]
    omega

theorem caret_left_of_parenthesis :
    parse "a\n (" = .error (.unexpectedToken .openParen .semicolon ⟨2, 1⟩) ∧
      ∃ gutter caret,
        ((Diagnostic.render "f" "a\n (" (.unexpectedToken .openParen .semicolon
          ⟨2, 1⟩)).toList.splitOn '\n')[3]? = some (gutter ++ [' ', '(']) ∧
        ((Diagnostic.render "f" "a\n (" (.unexpectedToken .openParen .semicolon
          ⟨2, 1⟩)).toList.splitOn '\n')[4]? = some caret ∧
        caret.idxOf '^' + 1 = gutter.length + 1 := by
  have hscan : scan "a\n (" =
      ⟨[⟨.identifier, "a", ⟨1, 0⟩⟩, ⟨.openParen, "(", ⟨2, 1⟩⟩], none⟩ := by
    decide +kernel
  have hstops : Stops programGoals (scan "a\n (")
      (.unexpectedToken .openParen .semicolon ⟨2, 1⟩) := by
    rw [hscan]
    exact @Stops.token _ _ [⟨.identifier, "a", ⟨1, 0⟩⟩] [] ⟨.openParen, "(", ⟨2, 1⟩⟩ _
      ⟨.semicolon, [.statements none], none⟩ rfl ⟨_, rfl, rfl⟩ rfl (by decide)
  have hparse := parse_of_stops hstops
  have hfile : '\n' ∉ "f".toList := by decide
  obtain ⟨gutter, caret, hshown, hcaret, -, -, hcolumn⟩ :=
    caret_left_of_fault "f" hfile hparse rfl
  refine ⟨hparse, gutter, caret, ?_, hcaret, ?_⟩
  · have hline : lineText "a\n (".toList 2 = [' ', '('] := by decide
    rw [hshown, hline]
  · have hdigits : max 1 ((toString 2).length - 2) = 1 := by decide
    rw [← hdigits]
    exact hcolumn.symm

/-- The first character of a text is at place six of its line, its caret at place five. -/
theorem caret_left_of_first_character :
    parse "@" = .error (.lexical ⟨'@', .start⟩) ∧
      Diagnostic.render "f" "@" (.lexical ⟨'@', .start⟩) =
        "error[E_LEX]: Unexpected character: '@'\n  --> f:1:1\n   |\n  1 | @\n   | ^\n" ∧
      "  1 | @".toList.idxOf '@' = 6 ∧ "   | ^".toList.idxOf '^' = 5 := by
  have hscan : scan "@" = ⟨[], some ⟨'@', .start⟩⟩ := by decide +kernel
  refine ⟨parse_of_stops ?_, by decide +kernel, by decide, by decide⟩
  rw [hscan]
  exact .lexical rfl (Passes.refl _ _)

end Scriptlet
