import Mathlib.Data.List.DropRight
import Mathlib.Data.Prod.Lex
import Scriptlet.Position
import Scriptlet.Text.Lines

/-!
# Scriptlet.Proofs.Text.Place

Positions as places in the lines of a text:

* `lastLine cs`         — what a text has after its last line feed.
* `lineText cs number`  — a line of a text, found by cutting the text at its line feeds.

`advance_start` says what the position after a text is, `drop_splitOn` which line a position stands
in, and `drop_column` what that line has from there on. Positions are ordered as a text is read;
reading leads to greater ones (`lt_advance`), so a text has no two places with one position
(`advance_lt_advance`, `eq_of_advance_eq`). `lineAt_eq` compares the
lines that users are shown with the cut text: they are the same lines, but a carriage return goes
with its line feed, and the last line may be missing if it is empty.
-/

namespace Scriptlet

/-! ## Lines and columns -/

def lastLine (cs : List Char) : List Char := cs.rtakeWhile fun c => c ≠ '\n'

theorem lastLine_lineFeed (cs : List Char) : lastLine (cs ++ ['\n']) = [] :=
  List.rtakeWhile_concat_neg _ _ _ (by simp)

theorem lastLine_concat {c : Char} (hc : c ≠ '\n') (cs : List Char) :
    lastLine (cs ++ [c]) = lastLine cs ++ [c] :=
  List.rtakeWhile_concat_pos _ _ _ (by simpa using hc)

namespace Position

theorem advance_start (cs : List Char) :
    start.advance cs = ⟨cs.count '\n' + 1, (lastLine cs).length⟩ := by
  induction cs using List.reverseRecOn with
  | nil => rfl
  | append_singleton cs c ih =>
    rw [advance_append, ih, advance_cons, advance_nil, step]
    by_cases hc : c = '\n'
    · rw [if_pos hc, hc, lastLine_lineFeed, List.count_append, List.count_singleton_self]
      rfl
    · rw [if_neg hc, lastLine_concat hc]
      simp [hc]

/-! ### Their order -/

/-- By lines, and within a line by columns. -/
instance : PartialOrder Position :=
  PartialOrder.lift (fun p => toLex (p.line, p.column)) <| by
    rintro ⟨l, c⟩ ⟨l', c'⟩ h
    simpa using h

theorem lt_iff {p q : Position} :
    p < q ↔ p.line < q.line ∨ p.line = q.line ∧ p.column < q.column := Prod.Lex.toLex_lt_toLex

theorem lt_step (p : Position) (c : Char) : p < p.step c := by
  rw [lt_iff, step]
  by_cases hc : c = '\n'
  · rw [if_pos hc]
    exact .inl (Nat.lt_succ_self _)
  · rw [if_neg hc]
    exact .inr ⟨rfl, Nat.lt_succ_self _⟩

theorem le_advance (p : Position) (cs : List Char) : p ≤ p.advance cs := by
  induction cs generalizing p with
  | nil => exact le_rfl
  | cons c cs ih => exact (p.lt_step c).le.trans (ih _)

theorem lt_advance {cs : List Char} (h : cs ≠ []) (p : Position) : p < p.advance cs := by
  obtain ⟨c, cs, rfl⟩ := List.exists_cons_of_ne_nil h
  exact (p.lt_step c).trans_le (le_advance _ cs)

/-- The further a text has been read, the greater the position. -/
theorem advance_lt_advance {text before before' : List Char} (h : before <+: text)
    (h' : before' <+: text) (hlt : before.length < before'.length) (p : Position) :
    p.advance before < p.advance before' := by
  obtain ⟨between, rfl⟩ := List.prefix_of_prefix_length_le h h' hlt.le
  rw [advance_append]
  refine lt_advance ?_ _
  rintro rfl
  exact hlt.ne (by simp)

/-- No text leads back to where it began. -/
theorem eq_nil_of_advance_eq {p : Position} {cs : List Char} (h : p.advance cs = p) : cs = [] := by
  by_contra hne
  exact (lt_advance hne p).ne h.symm

/-- A text has one place for each position. -/
theorem eq_of_advance_eq {before after before' after' : List Char}
    (h : before ++ after = before' ++ after')
    (hp : start.advance before = start.advance before') : before = before' ∧ after = after' := by
  rcases List.append_eq_append_iff.1 h with ⟨w, rfl, rfl⟩ | ⟨w, rfl, rfl⟩
  · rw [advance_append] at hp
    obtain rfl := eq_nil_of_advance_eq hp.symm
    simp
  · rw [advance_append] at hp
    obtain rfl := eq_nil_of_advance_eq hp
    simp

end Position

/-! ## Cutting at line feeds -/

/-- From the line on in which `before` ends, the cut lines are those of the text after it, the first
of them completed by the end of `before`. -/
theorem drop_splitOn (before rest : List Char) :
    ((before ++ rest).splitOn '\n').drop (before.count '\n') =
      (rest.splitOn '\n').modifyHead (lastLine before ++ ·) := by
  induction before using List.reverseRecOn generalizing rest with
  | nil => exact (congrFun List.modifyHead_id _).symm
  | append_singleton before c ih =>
    rw [List.append_assoc, List.singleton_append]
    by_cases hc : c = '\n'
    · subst hc
      rw [List.count_append, List.count_singleton_self, ← List.drop_drop, ih,
        List.splitOn_cons_eq_if_modifyHead, lastLine_lineFeed]
      cases rest.splitOn '\n' <;> rfl
    · rw [List.count_append, List.count_singleton, if_neg (by simpa using hc), Nat.add_zero, ih,
        List.splitOn_cons_eq_if_modifyHead, if_neg (by simpa using hc), List.modifyHead_modifyHead,
        lastLine_concat hc]
      congr 1
      funext l
      simp

theorem head?_splitOn (cs : List Char) :
    (cs.splitOn '\n').head? = some (cs.takeWhile fun c => c ≠ '\n') := by
  induction cs with
  | nil => rfl
  | cons c cs ih =>
    rw [List.splitOn_cons_eq_if_modifyHead]
    by_cases hc : c = '\n'
    · simp [hc]
    · rw [if_neg (by simpa using hc), List.head?_modifyHead, ih]
      simp [hc]

/-- The line of a position without its first characters, as many as the column says, is what the
line has from the position on. -/
theorem drop_column (before rest : List Char) :
    (((before ++ rest).splitOn '\n')[(Position.start.advance before).line - 1]?).map
        (List.drop (Position.start.advance before).column) =
      some (rest.takeWhile fun c => c ≠ '\n') := by
  rw [Position.advance_start, Nat.add_sub_cancel, ← List.head?_drop, drop_splitOn,
    List.head?_modifyHead, head?_splitOn]
  simp

/-! ## Lines as they are shown -/

def withoutReturn (line : List Char) : List Char :=
  if line.getLast? = some '\r' then line.dropLast else line

/-- The first of some lines of a text, given up to the last one, which ends at no line feed. -/
def firstLine : List (List Char) → List Char
  | [] => []
  | [last] => last
  | ended :: _ :: _ => withoutReturn ended

def lineText (cs : List Char) (number : Nat) : List Char :=
  firstLine ((cs.splitOn '\n').drop (number - 1))

/-- All lines of a text that was cut at its line feeds. -/
def shownLines : List (List Char) → List (List Char)
  | [] => []
  | [last] => if last.isEmpty then [] else [last]
  | ended :: line :: lines => withoutReturn ended :: shownLines (line :: lines)

theorem endedLine_eq (reversed : List Char) :
    endedLine reversed = withoutReturn reversed.reverse := by
  unfold endedLine withoutReturn
  split
  · simp
  · rename_i hne
    rw [List.getLast?_reverse, if_neg]
    intro hhead
    obtain ⟨rest, hrest⟩ := List.head?_eq_some_iff.1 hhead
    exact hne rest hrest

theorem linesFrom_eq (finished : List (List Char)) {reversed : List Char} (h : '\n' ∉ reversed)
    (cs : List Char) :
    linesFrom finished reversed cs =
      finished.reverse ++ shownLines ((reversed.reverse ++ cs).splitOn '\n') := by
  induction cs generalizing finished reversed with
  | nil =>
    rw [linesFrom, List.append_nil, List.splitOn_eq_singleton (by simpa using h), shownLines]
    cases reversed with
    | nil => simp
    | cons c reversed => simp
  | cons c cs ih =>
    rw [linesFrom]
    by_cases hc : c = '\n'
    · subst hc
      rw [if_pos rfl, ih _ List.not_mem_nil, endedLine_eq,
        List.splitOn_append_cons_self_of_not_mem (by simpa using h), List.reverse_nil,
        List.nil_append]
      obtain ⟨line, lines, hlines⟩ := List.exists_cons_of_ne_nil (List.splitOn_ne_nil '\n' cs)
      rw [hlines, shownLines]
      simp
    · have hnone : '\n' ∉ c :: reversed := List.not_mem_cons_of_ne_of_not_mem (Ne.symm hc) h
      rw [if_neg hc, ih _ hnone]
      simp

theorem getElem?_shownLines (lines : List (List Char)) (i : Nat) :
    ((shownLines lines)[i]?).getD [] = firstLine (lines.drop i) := by
  induction lines generalizing i with
  | nil => simp [shownLines, firstLine]
  | cons line lines ih =>
    cases lines with
    | nil =>
      cases i with
      | zero => cases line <;> rfl
      | succ i => cases line <;> simp [shownLines, firstLine]
    | cons next lines =>
      cases i with
      | zero => rfl
      | succ i =>
        rw [shownLines, List.getElem?_cons_succ, List.drop_succ_cons]
        exact ih i

theorem lineAt_eq (cs : List Char) (number : Nat) : lineAt cs number = lineText cs number := by
  rw [lineAt, splitLines, linesFrom_eq [] List.not_mem_nil]
  exact getElem?_shownLines _ _

/-! ## The line of a place -/

theorem getElem?_withoutReturn {cs : List Char} {i : Nat} {c : Char} (h : cs[i]? = some c)
    (hc : c ≠ '\r') : (withoutReturn cs)[i]? = some c := by
  unfold withoutReturn
  split
  · rename_i hlast
    rw [List.getElem?_dropLast, if_pos, h]
    by_contra hge
    have hlt := (List.getElem?_eq_some_iff.1 h).1
    have hi : i = cs.length - 1 := by omega
    rw [List.getLast?_eq_getElem?, ← hi, h] at hlast
    exact hc (Option.some.inj hlast)
  · exact h

/-- A character that ends no line stands in its line at its column. -/
theorem getElem?_lineText {c : Char} (hfeed : c ≠ '\n') (hreturn : c ≠ '\r')
    (before rest : List Char) :
    (lineText (before ++ c :: rest) (Position.start.advance before).line)[
      (Position.start.advance before).column]? = some c := by
  obtain ⟨line, lines, hlines⟩ := List.exists_cons_of_ne_nil (List.splitOn_ne_nil '\n' rest)
  have hdrop := drop_splitOn before (c :: rest)
  rw [List.splitOn_cons_eq_if_modifyHead, if_neg (by simpa using hfeed), hlines] at hdrop
  have hat : (lastLine before ++ c :: line)[(lastLine before).length]? = some c := by simp
  rw [Position.advance_start, lineText, Nat.add_sub_cancel, hdrop]
  cases lines with
  | nil => exact hat
  | cons next lines => exact getElem?_withoutReturn hat hreturn

/-- A text ends in its last line, of which nothing is removed. -/
theorem lineText_end (cs : List Char) :
    lineText cs (Position.start.advance cs).line = lastLine cs := by
  have hdrop := drop_splitOn cs []
  rw [List.append_nil, List.splitOn_nil] at hdrop
  rw [Position.advance_start, lineText, Nat.add_sub_cancel, hdrop]
  simp [firstLine]

end Scriptlet
