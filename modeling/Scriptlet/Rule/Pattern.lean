import Scriptlet.Number.Digits
import Scriptlet.Text.Word
import Scriptlet.Token.Quote

/-!
# Scriptlet.Rule.Pattern

What a lexical rule looks for at the start of a text:

* `Pattern`         — the shapes of text that rules know.
* `Pattern.split?`  — the piece that a pattern takes from the front of a text, if it takes any, and
                      the text after it.

`Pattern.split?_append` says that a cut loses nothing, `Pattern.split?_ne_nil` that it takes at
least one character.
-/

namespace Scriptlet

/-! ## Cuts of one shape -/

/-- As many characters of a class as there are, one at least. -/
def cutRun (p : Char → Bool) (cs : List Char) : Option (List Char × List Char) :=
  if (cs.takeWhile p).isEmpty then none else some (cs.takeWhile p, cs.dropWhile p)

/-- Two slashes and the rest of the line, its line feed not included. -/
def cutLineComment : List Char → Option (List Char × List Char)
  | '/' :: '/' :: rest =>
    some ('/' :: '/' :: rest.takeWhile (· ≠ '\n'), rest.dropWhile (· ≠ '\n'))
  | _ => none

/-- A text up to its first star and slash, after what was read before it, kept in reverse. -/
def closeComment (reversed : List Char) : List Char → Option (List Char × List Char)
  | [] => none
  | '*' :: '/' :: rest => some (reversed.reverse ++ ['*', '/'], rest)
  | c :: rest => closeComment (c :: reversed) rest

/-- Slash and star, up to the next star and slash. The star of the opening closes nothing. -/
def cutBlockComment : List Char → Option (List Char × List Char)
  | '/' :: '*' :: rest => closeComment ['*', '/'] rest
  | _ => none

/-- The first of some spellings that the text begins with. -/
def cutSpelling (spellings : List String) (cs : List Char) : Option (List Char × List Char) :=
  match spellings.find? fun w => w.toList.isPrefixOf cs with
  | some w => some (w.toList, cs.drop w.toList.length)
  | none => none

/-- Whether a reserved word is complete when this text follows it. -/
def endsWord : List Char → Bool
  | [] => true
  | c :: _ => !extendsWord c

/-- A spelling that is not the beginning of a longer word. -/
def cutReserved (words : List String) (cs : List Char) : Option (List Char × List Char) :=
  match cutSpelling words cs with
  | some (word, rest) => if endsWord rest then some (word, rest) else none
  | none => none

/-- A delimiter, up to where it occurs again. -/
def cutQuoted : List Char → Option (List Char × List Char)
  | [] => none
  | c :: rest =>
    match Quote.ofCharacter? c, rest.dropWhile (· ≠ c) with
    | some _, d :: after => some (c :: rest.takeWhile (· ≠ c) ++ [d], after)
    | _, _ => none

def cutName : List Char → Option (List Char × List Char)
  | [] => none
  | c :: rest =>
    if startsName c then some (c :: rest.takeWhile continuesName, rest.dropWhile continuesName)
    else none

/-! ## Patterns -/

inductive Pattern where
  | blanks
  | lineComment
  | blockComment
  | spelled (spellings : List String)
  | reserved (words : List String)
  | digits
  | quoted
  | name
  deriving DecidableEq, Repr

namespace Pattern

/-- A pattern is proper when each of its spellings has a character. -/
def proper : Pattern → Bool
  | spelled ws | reserved ws => ws.all fun w => w ≠ ""
  | _ => true

def split? : Pattern → List Char → Option (List Char × List Char)
  | blanks => cutRun isBlank
  | lineComment => cutLineComment
  | blockComment => cutBlockComment
  | spelled ws => cutSpelling ws
  | reserved ws => cutReserved ws
  | digits => cutRun isDigit
  | quoted => cutQuoted
  | name => cutName

end Pattern

/-! ## What every cut has in common -/

theorem cutRun_append {p : Char → Bool} {cs piece rest : List Char}
    (h : cutRun p cs = some (piece, rest)) : piece ++ rest = cs ∧ piece ≠ [] := by
  simp only [cutRun] at h
  split at h
  · cases h
  · rename_i hne
    cases h
    exact ⟨List.takeWhile_append_dropWhile, by simpa using hne⟩

theorem cutLineComment_append {cs piece rest : List Char}
    (h : cutLineComment cs = some (piece, rest)) : piece ++ rest = cs ∧ piece ≠ [] := by
  unfold cutLineComment at h
  split at h
  · cases h
    simp [List.takeWhile_append_dropWhile]
  · cases h

theorem closeComment_append {reversed cs piece rest : List Char}
    (h : closeComment reversed cs = some (piece, rest)) :
    piece ++ rest = reversed.reverse ++ cs ∧ piece ≠ [] := by
  fun_induction closeComment reversed cs with
  | case1 => cases h
  | case2 reversed tail => cases h; simp
  | case3 reversed c tail _ ih => simpa using ih h

theorem cutBlockComment_append {cs piece rest : List Char}
    (h : cutBlockComment cs = some (piece, rest)) : piece ++ rest = cs ∧ piece ≠ [] := by
  unfold cutBlockComment at h
  split at h
  · simpa using closeComment_append h
  · cases h

/-- A cut by spellings takes one of them, and the text begins with it. -/
theorem cutSpelling_append {ws : List String} {cs piece rest : List Char}
    (h : cutSpelling ws cs = some (piece, rest)) :
    piece ++ rest = cs ∧ ∃ w ∈ ws, piece = w.toList := by
  simp only [cutSpelling] at h
  split at h
  · rename_i w hw
    cases h
    have hp : w.toList.isPrefixOf cs = true := by
      have := List.find?_some hw
      simpa using this
    obtain ⟨t, rfl⟩ := List.isPrefixOf_iff_prefix.1 hp
    exact ⟨by simp, w, List.mem_of_find?_eq_some hw, rfl⟩
  · cases h

theorem cutReserved_eq_some {ws : List String} {cs piece rest : List Char}
    (h : cutReserved ws cs = some (piece, rest)) :
    cutSpelling ws cs = some (piece, rest) ∧ endsWord rest = true := by
  simp only [cutReserved] at h
  split at h
  · rename_i hw
    split at h
    · rename_i he
      cases h
      exact ⟨hw, he⟩
    · cases h
  · cases h

theorem cutQuoted_append {cs piece rest : List Char} (h : cutQuoted cs = some (piece, rest)) :
    piece ++ rest = cs ∧ piece ≠ [] := by
  unfold cutQuoted at h
  split at h
  · cases h
  · rename_i c tail
    split at h
    · rename_i d after _ hd
      cases h
      refine ⟨?_, by simp⟩
      have := List.takeWhile_append_dropWhile (p := (· ≠ c)) (l := tail)
      rw [hd] at this
      simpa using this
    · cases h

theorem cutName_append {cs piece rest : List Char} (h : cutName cs = some (piece, rest)) :
    piece ++ rest = cs ∧ piece ≠ [] := by
  unfold cutName at h
  split at h
  · cases h
  · split at h
    · cases h
      simp [List.takeWhile_append_dropWhile]
    · cases h

namespace Pattern

theorem split?_append {p : Pattern} {cs piece rest : List Char}
    (h : p.split? cs = some (piece, rest)) : piece ++ rest = cs := by
  cases p with
  | blanks => exact (cutRun_append h).1
  | lineComment => exact (cutLineComment_append h).1
  | blockComment => exact (cutBlockComment_append h).1
  | spelled ws => exact (cutSpelling_append h).1
  | reserved ws => exact (cutSpelling_append (cutReserved_eq_some h).1).1
  | digits => exact (cutRun_append h).1
  | quoted => exact (cutQuoted_append h).1
  | name => exact (cutName_append h).1

theorem split?_ne_nil {p : Pattern} {cs piece rest : List Char} (hp : p.proper = true)
    (h : p.split? cs = some (piece, rest)) : piece ≠ [] := by
  have spelling : ∀ {ws : List String}, (ws.all fun w => w ≠ "") = true →
      (∃ w ∈ ws, piece = w.toList) → piece ≠ [] := by
    rintro ws hws ⟨w, hw, rfl⟩
    simpa using List.all_eq_true.1 hws w hw
  cases p with
  | blanks => exact (cutRun_append h).2
  | lineComment => exact (cutLineComment_append h).2
  | blockComment => exact (cutBlockComment_append h).2
  | spelled ws => exact spelling hp (cutSpelling_append h).2
  | reserved ws => exact spelling hp (cutSpelling_append (cutReserved_eq_some h).1).2
  | digits => exact (cutRun_append h).2
  | quoted => exact (cutQuoted_append h).2
  | name => exact (cutName_append h).2

end Pattern

end Scriptlet
