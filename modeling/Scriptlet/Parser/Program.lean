import Scriptlet.Parser.Statement

/-!
# Scriptlet.Parser.Program

The reading of a whole text: at least one statement, and then as many as there are. The answer is
the tree of all of them, or the first fault.
-/

namespace Scriptlet

def State.program (s : State) : Step s Program := (s.statements none).map Program.mk

def parseChars (source : List Char) : Except Fault Program :=
  match State.prime source with
  | .error fault => .error (.lexical fault)
  | .ok s =>
    match s.program with
    | .done program _ _ => .ok program
    | .failed fault _ => .error fault

def parse (source : String) : Except Fault Program := parseChars source.toList

end Scriptlet
