import Scriptlet.Text.Alphabetic
import Scriptlet.Text.Blank
import Scriptlet.Text.Connector
import Scriptlet.Text.Mark
import Scriptlet.Text.Numeral
import Scriptlet.Text.Recent

/-!
# Scriptlet.Text.Word

The classes of characters that words are made of:

* `startsName`     — what a name may begin with.
* `continuesName`  — what may follow in a name.
* `extendsWord`    — what turns a reserved word into part of a longer word.

Names are made of the letters of version 16 of the Unicode standard, words of those of version 17.
The last two classes differ in more than that: a mark that is no letter, a joiner and a connector
other than the low line continue a name and do not extend a word, and a fraction or a superscript
extends a word and does not continue a name.
-/

namespace Scriptlet

def isBlank (c : Char) : Bool := blank.contains c

def startsName (c : Char) : Bool := alphabetic.contains c || c == '_' || c == '$'

def continuesName (c : Char) : Bool :=
  alphabetic.contains c || mark.contains c || decimalDigit.contains c || connector.contains c ||
    joinControl.contains c || c == '$'

def extendsWord (c : Char) : Bool :=
  alphabetic.contains c || decimalDigit.contains c || letterNumber.contains c ||
    otherNumber.contains c || recentLetterOrNumber.contains c || c == '_' || c == '$'

/-- A word that begins as a name may is a name as far as its next character continues it. -/
theorem continuesName_of_startsName {c : Char} (h : startsName c = true) :
    continuesName c = true := by
  simp only [startsName, Bool.or_eq_true, beq_iff_eq] at h
  rcases h with (h | rfl) | rfl
  · simp [continuesName, h]
  · decide +kernel
  · decide +kernel

theorem extendsWord_of_startsName {c : Char} (h : startsName c = true) :
    extendsWord c = true := by
  simp only [startsName, Bool.or_eq_true, beq_iff_eq] at h
  rcases h with (h | rfl) | rfl
  · simp [extendsWord, h]
  · decide +kernel
  · decide +kernel

end Scriptlet
