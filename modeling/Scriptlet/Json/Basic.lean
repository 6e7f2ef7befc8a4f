import Scriptlet.Number.Notation

/-!
# Scriptlet.Json.Basic

JSON values as they are handed to other programs. Members of an object keep their order. A number
is a binary64; `Json.ofNumber` gives null for those that JSON has no text for.
-/

namespace Scriptlet

inductive Json where
  | null
  | boolean (value : Bool)
  | number (value : Binary64)
  | string (value : String)
  | array (items : List Json)
  | object (members : List (String × Json))
  deriving Inhabited

namespace Json

def ofNumber (x : Binary64) : Json := if x.isFinite then number x else null

end Json

end Scriptlet
