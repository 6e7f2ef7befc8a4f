import Scriptlet.Text.CodePointSet

/-!
# Scriptlet.Text.Connector

The characters that join the parts of a word: connector punctuation and the two join controls.
-/

namespace Scriptlet

/-- General category Pc. -/
def connector : CodePointSet where
  ranges := [
    (0x5F, 0x5F), (0x203F, 0x2040), (0x2054, 0x2054), (0xFE33, 0xFE34), (0xFE4D, 0xFE4F),
    (0xFF3F, 0xFF3F)]

/-- The property Join_Control: zero width non-joiner and joiner. -/
def joinControl : CodePointSet where
  ranges := [
    (0x200C, 0x200D)]

end Scriptlet
