/-!
# Scriptlet.Text.Lines

The lines of a text, as they are shown to users. A line ends at a line feed, which is removed
together with one carriage return directly before it. Text after the last line feed is a line of
its own, with any carriage return kept, and only if it is not empty.

* `splitLines`  — all lines, in order.
* `lineAt`      — the line of a number counted from one; number zero means the first line, and a
                  number past the last line an empty one.
-/

namespace Scriptlet

/-- A line that ended at a line feed, given in reverse, without its carriage return. -/
def endedLine : List Char → List Char
  | '\r' :: reversed => reversed.reverse
  | reversed => reversed.reverse

/-- The lines of a text whose current line has been read up to `reversed`, after the lines
`finished`, both kept in reverse. -/
def linesFrom (finished : List (List Char)) (reversed : List Char) : List Char → List (List Char)
  | [] => (if reversed.isEmpty then finished else reversed.reverse :: finished).reverse
  | c :: rest =>
    if c = '\n' then linesFrom (endedLine reversed :: finished) [] rest
    else linesFrom finished (c :: reversed) rest

def splitLines (cs : List Char) : List (List Char) := linesFrom [] [] cs

def lineAt (cs : List Char) (number : Nat) : List Char := ((splitLines cs)[number - 1]?).getD []

end Scriptlet
