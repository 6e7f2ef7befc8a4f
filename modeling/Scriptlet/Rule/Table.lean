import Scriptlet.Rule.Pattern
import Scriptlet.Token.Kind

/-!
# Scriptlet.Rule.Table

The lexical rules of the language, in the order in which they are tried:

* `Rule`        — a pattern with what becomes of the text it takes.
* `rules`       — the table.
* `firstMatch`  — the first rule of the table that takes a piece of a text, and the two parts.

The order matters where one rule takes the beginning of what another one takes: the comma with its
closing parenthesis stands before the comma, the operators before the equals sign, and every
reserved word before names.
-/

namespace Scriptlet

inductive Action where
  /-- The text is passed over. -/
  | skip
  /-- The text is a token of this kind. -/
  | emit (kind : Kind)
  deriving DecidableEq, Repr

structure Rule where
  pattern : Pattern
  action : Action
  proper : pattern.proper = true := by decide

/-- A piece taken from the front of a text, what becomes of it, and the text after it. -/
structure Match where
  piece : List Char
  rest : List Char
  action : Action
  deriving DecidableEq, Repr

def Rule.match? (r : Rule) (cs : List Char) : Option Match :=
  (r.pattern.split? cs).map fun x => ⟨x.1, x.2, r.action⟩

def rules : List Rule := [
  { pattern := .blanks, action := .skip },
  { pattern := .lineComment, action := .skip },
  { pattern := .blockComment, action := .skip },
  { pattern := .spelled [";"], action := .emit .semicolon },
  { pattern := .spelled ["\x7b"], action := .emit .openBrace },
  { pattern := .spelled ["\x7d"], action := .emit .closeBrace },
  { pattern := .spelled [",)"], action := .emit .commaCloseParen },
  { pattern := .spelled [","], action := .emit .comma },
  { pattern := .spelled ["("], action := .emit .openParen },
  { pattern := .spelled [")"], action := .emit .closeParen },
  { pattern := .spelled ["&&", "||", "==", "!="], action := .emit .operator },
  { pattern := .spelled ["="], action := .emit .assign },
  { pattern := .reserved ["function"], action := .emit .functionWord },
  { pattern := .reserved ["true", "false"], action := .emit .boolean },
  { pattern := .reserved ["let"], action := .emit .letWord },
  { pattern := .reserved ["if"], action := .emit .ifWord },
  { pattern := .reserved ["else"], action := .emit .elseWord },
  { pattern := .reserved ["of"], action := .emit .ofWord },
  { pattern := .reserved ["for"], action := .emit .forWord },
  { pattern := .digits, action := .emit .number },
  { pattern := .quoted, action := .emit .string },
  { pattern := .name, action := .emit .identifier }]

def firstMatch (cs : List Char) : Option Match := rules.findSome? fun r => r.match? cs

theorem Rule.match?_append {r : Rule} {cs : List Char} {m : Match} (h : r.match? cs = some m) :
    m.piece ++ m.rest = cs ∧ m.piece ≠ [] := by
  obtain ⟨⟨piece, rest⟩, hs, rfl⟩ := Option.map_eq_some_iff.1 h
  exact ⟨Pattern.split?_append hs, Pattern.split?_ne_nil r.proper hs⟩

/-- The rule that matched, wherever it stands in the table. -/
theorem mem_of_firstMatch {cs : List Char} {m : Match} (h : firstMatch cs = some m) :
    ∃ r ∈ rules, r.match? cs = some m :=
  List.exists_of_findSome?_eq_some h

/-- The first match loses nothing of the text and takes at least one character. -/
theorem firstMatch_append {cs : List Char} {m : Match} (h : firstMatch cs = some m) :
    m.piece ++ m.rest = cs ∧ m.piece ≠ [] := by
  obtain ⟨r, _, hr⟩ := mem_of_firstMatch h
  exact r.match?_append hr

theorem rest_length_lt {cs : List Char} {m : Match} (h : firstMatch cs = some m) :
    m.rest.length < cs.length := by
  obtain ⟨happ, hne⟩ := firstMatch_append h
  have := List.length_pos_iff.2 hne
  rw [← happ, List.length_append]
  omega

/-- No rule takes a piece of an empty text. -/
@[simp] theorem firstMatch_nil : firstMatch [] = none := by
  cases h : firstMatch [] with
  | none => rfl
  | some m => exact absurd (rest_length_lt h) (by simp)

end Scriptlet
