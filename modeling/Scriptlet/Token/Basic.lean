import Scriptlet.Position
import Scriptlet.Token.Kind

/-!
# Scriptlet.Token.Basic

A token: its kind, the exact text it was read from, delimiters included, and the place of the
first character of that text.
-/

namespace Scriptlet

structure Token where
  kind : Kind
  lexeme : String
  position : Position
  deriving DecidableEq, Repr

end Scriptlet
