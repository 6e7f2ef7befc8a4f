/-!
# Scriptlet.Position

Places in a source text:

* `Position`          — a line, counted from one, and a column, counted from zero in characters.
* `Position.advance`  — the place reached after reading a text; only a line feed starts a line.
* `Position.text`     — the form shown to users, whose columns are counted from one.

`advance_append` lets a text be read in pieces.
-/

namespace Scriptlet

structure Position where
  line : Nat
  column : Nat
  deriving DecidableEq, Repr, Inhabited

namespace Position

/-- The place of the first character of a text. -/
def start : Position := ⟨1, 0⟩

/-- The place after one character. -/
def step (p : Position) (c : Char) : Position :=
  if c = '\n' then ⟨p.line + 1, 0⟩ else ⟨p.line, p.column + 1⟩

def advance (p : Position) (cs : List Char) : Position := cs.foldl step p

def text (p : Position) : String := toString p.line ++ ":" ++ toString (p.column + 1)

@[simp] theorem advance_nil (p : Position) : p.advance [] = p := rfl

@[simp] theorem advance_cons (p : Position) (c : Char) (cs : List Char) :
    p.advance (c :: cs) = (p.step c).advance cs := rfl

/-- Reading two texts one after the other is reading their concatenation. -/
theorem advance_append (p : Position) (cs ds : List Char) :
    p.advance (cs ++ ds) = (p.advance cs).advance ds := by
  simp [advance, List.foldl_append]

end Position

end Scriptlet
