import Scriptlet.Fault
import Scriptlet.Rule.Table
import Scriptlet.Text.ByteLength

/-!
# Scriptlet.Scanner

A scanner gives the tokens of a text one at a time:

* `Scanner`              — the text, what is left of it, and the place where that begins.
* `Scanner.init`         — the scanner before the first character of another text.
* `Scanner.nextToken`    — the next token, after anything that is skipped. At a fault the scanner
                           stays where it is, so that the fault comes again.
* `Scanner.next`         — the same for one pass over the text: a fault ends the pass.
* `Scanner.collect`      — all tokens that are left, or the first fault.
* `tokenize`             — all tokens of a text.

`nextToken_length_lt` says that each token makes the rest of the text shorter.
-/

namespace Scriptlet

/-- What a scanner gives when it is asked for a token. -/
inductive Yield where
  | token (token : Token)
  | finish
  | fault (fault : ScanFault)
  deriving DecidableEq, Repr

structure Scanner where
  source : List Char
  rest : List Char
  position : Position
  deriving DecidableEq, Repr

namespace Scanner

/-- A scanner before the first character of a text. -/
def start (source : List Char) : Scanner := ⟨source, source, .start⟩

/-- The scanner with another text, before its first character. -/
def init (s : Scanner) (source : List Char) : Scanner :=
  { s with source := source, rest := source, position := .start }

def atEnd (s : Scanner) : Bool := s.rest.isEmpty

/-- How many bytes of the text have been read. -/
def cursor (s : Scanner) : Nat := byteLength s.source - byteLength s.rest

/-- The scanner after the piece of a match. -/
def pass (s : Scanner) (m : Match) : Scanner :=
  { s with rest := m.rest, position := s.position.advance m.piece }

def nextToken (s : Scanner) : Yield × Scanner :=
  match _h : firstMatch s.rest with
  | none =>
    match s.rest with
    | [] => (.finish, s)
    | c :: _ => (.fault ⟨c, s.position⟩, s)
  | some m =>
    match m.action with
    | .emit kind => (.token ⟨kind, String.ofList m.piece, s.position⟩, s.pass m)
    | .skip => nextToken (s.pass m)
termination_by s.rest.length
decreasing_by exact rest_length_lt (by assumption)

/-- The scanner with nothing left to read. -/
def exhaust (s : Scanner) : Scanner := { s with rest := [] }

def next (s : Scanner) : Yield × Scanner :=
  match s.nextToken with
  | (.fault f, s') => (.fault f, s'.exhaust)
  | x => x

theorem nextToken_length_le (s : Scanner) : s.nextToken.2.rest.length ≤ s.rest.length := by
  fun_induction nextToken s with
  | case1 | case2 => simp
  | case3 s m h kind hk => exact Nat.le_of_lt (rest_length_lt h)
  | case4 s m h hk ih => exact Nat.le_trans ih (Nat.le_of_lt (rest_length_lt h))

/-- A token is made of at least one character. -/
theorem nextToken_length_lt {s s' : Scanner} {t : Token} (h : s.nextToken = (.token t, s')) :
    s'.rest.length < s.rest.length := by
  fun_induction nextToken s with
  | case1 => cases h
  | case2 => cases h
  | case3 s m hm kind hk =>
    cases h
    exact rest_length_lt hm
  | case4 s m hm hk ih => exact Nat.lt_trans (ih h) (rest_length_lt hm)

theorem next_length_lt {s s' : Scanner} {t : Token} (h : s.next = (.token t, s')) :
    s'.rest.length < s.rest.length := by
  unfold next at h
  split at h
  · cases h
  · exact nextToken_length_lt h

/-- The tokens that are left, after those read before, kept in reverse. -/
def collectFrom (read : List Token) (s : Scanner) : Except ScanFault (List Token) × Scanner :=
  match _h : s.next with
  | (.token t, s') => collectFrom (t :: read) s'
  | (.finish, s') => (.ok read.reverse, s')
  | (.fault f, s') => (.error f, s')
termination_by s.rest.length
decreasing_by exact next_length_lt (by assumption)

def collect (s : Scanner) : Except ScanFault (List Token) × Scanner := collectFrom [] s

end Scanner

def tokenize (source : String) : Except ScanFault (List Token) :=
  (Scanner.start source.toList).collect.1

end Scriptlet
