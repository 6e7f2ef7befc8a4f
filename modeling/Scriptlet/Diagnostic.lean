import Scriptlet.Fault
import Scriptlet.Text.Lines

/-!
# Scriptlet.Diagnostic

A fault as it is shown to users: its code and message, the file and the place, the source line
with a caret under the place, and the kind of token that had to come, if one had to. A fault at
the end of the text is shown after its last character.
-/

namespace Scriptlet

def padLeft (width : Nat) (cs : List Char) : List Char :=
  List.replicate (width - cs.length) ' ' ++ cs

/-- Where a fault is shown. -/
def Fault.shownAt (f : Fault) (source : List Char) : Position :=
  f.position?.getD (Position.start.advance source)

namespace Diagnostic

/-- The blanks that take the place of a line number, and the bar after it. -/
def margin : String := "   | "

/-- The line of the source that a fault is shown with, after its number. -/
def sourceLine (source : List Char) (p : Position) : String :=
  String.ofList (padLeft 3 (toString p.line).toList) ++ " | " ++
    String.ofList (lineAt source p.line)

def caretLine (p : Position) : String :=
  margin ++ String.ofList (List.replicate p.column ' ') ++ "^"

def helpLines (f : Fault) : List String :=
  match f.expected? with
  | some kind => ["help: expected " ++ kind.name]
  | none => []

def lines (file : String) (source : List Char) (f : Fault) : List String :=
  let p := f.shownAt source
  ["error[" ++ f.code ++ "]: " ++ f.message,
    "  --> " ++ file ++ ":" ++ p.text,
    "   |",
    sourceLine source p,
    caretLine p] ++ helpLines f

def render (file source : String) (f : Fault) : String :=
  String.join ((lines file source.toList f).map fun l => l ++ "\n")

end Diagnostic

end Scriptlet
