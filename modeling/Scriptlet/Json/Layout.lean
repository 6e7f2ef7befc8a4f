import Scriptlet.Json.Basic
import Scriptlet.Json.Quoted

/-!
# Scriptlet.Json.Layout

The text of a JSON value, in one of two layouts:

* `Layout.compact`   — nothing but the value.
* `Layout.indented`  — a line for each element and each member, indented by two blanks for each
                       array and object around it, and a blank after each colon.

Empty arrays and objects are written without a line break in both. `Json.write` puts the text of a
value in front of a text that follows.
-/

namespace Scriptlet

structure Layout where
  /-- What stands before an element at some depth, and before the end of what is around it. -/
  lineBreak : Nat → List Char
  /-- What stands between a colon and a value. -/
  gap : List Char

namespace Layout

def compact : Layout := ⟨fun _ => [], []⟩

def indented : Layout := ⟨fun depth => '\n' :: List.replicate (2 * depth) ' ', [' ']⟩

end Layout

namespace Json

/-- Infinities and what is no number are written as null. -/
def numberText (x : Binary64) : List Char := if x.isFinite then x.text else "null".toList

mutual

def write (l : Layout) (depth : Nat) : Json → List Char → List Char
  | null, following => "null".toList ++ following
  | boolean true, following => "true".toList ++ following
  | boolean false, following => "false".toList ++ following
  | number x, following => numberText x ++ following
  | string s, following => quoted s.toList ++ following
  | array [], following => '[' :: ']' :: following
  | array (x :: xs), following =>
    '[' :: (l.lineBreak (depth + 1) ++
      write l (depth + 1) x (writeItems l (depth + 1) xs (l.lineBreak depth ++ ']' :: following)))
  | object [], following => '\x7b' :: '\x7d' :: following
  | object ((key, x) :: ms), following =>
    '\x7b' :: (l.lineBreak (depth + 1) ++ (quoted key.toList ++ ':' :: (l.gap ++
      write l (depth + 1) x
        (writeMembers l (depth + 1) ms (l.lineBreak depth ++ '\x7d' :: following)))))

/-- Further elements of an array, each after a comma. -/
def writeItems (l : Layout) (depth : Nat) : List Json → List Char → List Char
  | [], following => following
  | x :: xs, following =>
    ',' :: (l.lineBreak depth ++ write l depth x (writeItems l depth xs following))

/-- Further members of an object, each after a comma. -/
def writeMembers (l : Layout) (depth : Nat) : List (String × Json) → List Char → List Char
  | [], following => following
  | (key, x) :: ms, following =>
    ',' :: (l.lineBreak depth ++ (quoted key.toList ++ ':' :: (l.gap ++
      write l depth x (writeMembers l depth ms following))))

end

def text (l : Layout) (j : Json) : List Char := write l 0 j []

def compact (j : Json) : String := String.ofList (text .compact j)

def indented (j : Json) : String := String.ofList (text .indented j)

end Json

end Scriptlet
