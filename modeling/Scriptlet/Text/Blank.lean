import Scriptlet.Text.CodePointSet

/-!
# Scriptlet.Text.Blank

The characters with the Unicode property White_Space. No byte order mark or zero width space is
among them.
-/

namespace Scriptlet

/-- Characters that separate tokens and are otherwise skipped. -/
def blank : CodePointSet where
  ranges := [
    (0x9, 0xD), (0x20, 0x20), (0x85, 0x85), (0xA0, 0xA0), (0x1680, 0x1680), (0x2000, 0x200A),
    (0x2028, 0x2029), (0x202F, 0x202F), (0x205F, 0x205F), (0x3000, 0x3000)]

end Scriptlet
