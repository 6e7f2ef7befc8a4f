import Scriptlet.Token.Basic

/-!
# Scriptlet.Fault

What can be wrong with a source text:

* `ScanFault`  — a character at which no token begins and nothing can be skipped.
* `Fault`      — a scan fault, a token other than the one that has to come, or the end of the text
                 where a token has to come.

The end of the text has no position of its own: it has no token to point at.
-/

namespace Scriptlet

structure ScanFault where
  character : Char
  position : Position
  deriving DecidableEq, Repr

inductive Fault where
  | lexical (fault : ScanFault)
  | unexpectedToken (found expected : Kind) (position : Position)
  | unexpectedEnd (expected : Kind)
  deriving DecidableEq, Repr

namespace Fault

def code : Fault → String
  | lexical _ => "E_LEX"
  | unexpectedToken .. => "E_UNEXPECTED_TOKEN"
  | unexpectedEnd _ => "E_UNEXPECTED_EOF"

def message : Fault → String
  | lexical f => "Unexpected character: '" ++ f.character.toString ++ "'"
  | unexpectedToken found expected _ =>
    "Unexpected token: \"" ++ found.name ++ "\", Expected: \"" ++ expected.name ++ "\""
  | unexpectedEnd expected => "Unexpected end of input, expected: " ++ expected.name

def position? : Fault → Option Position
  | lexical f => some f.position
  | unexpectedToken _ _ p => some p
  | unexpectedEnd _ => none

/-- The kind of token that had to come, unless the text could not be read at all. -/
def expected? : Fault → Option Kind
  | lexical _ => none
  | unexpectedToken _ expected _ => some expected
  | unexpectedEnd expected => some expected

end Fault

end Scriptlet
