import Scriptlet.Scanner

/-!
# Scriptlet.Parser.State

What a parser has before it, and how a part of the parser ends:

* `State`      — a scanner, and the next token, which has been taken from the scanner already.
* `Step s α`   — the end of a part of the parser that began in state `s`: a value and the state
                 after it, or a fault and the state in which it was met.

A state has so much of the text before it as `State.remaining` says. A part that succeeds has read
a token, so less remains after it; a `Step` carries the proof, on which all recursion of the
parser rests.
-/

namespace Scriptlet

structure State where
  scanner : Scanner
  /-- Absent at the end of the text. -/
  lookahead : Option Token
  deriving DecidableEq, Repr

namespace State

def remaining (s : State) : Nat := s.scanner.rest.length + s.lookahead.toList.length

def kind? (s : State) : Option Kind := s.lookahead.map Token.kind

def check (s : State) (kind : Kind) : Bool := s.kind? == some kind

def atEnd (s : State) : Bool := s.lookahead.isNone

end State

inductive Step (s : State) (α : Type) where
  | done (value : α) (next : State) (shorter : next.remaining < s.remaining)
  | failed (fault : Fault) (stop : State)

namespace Step

variable {s : State} {α β : Type}

def map (f : α → β) : Step s α → Step s β
  | done value next shorter => done (f value) next shorter
  | failed fault stop => failed fault stop

/-- A step after a step. The second one may use that it has less before it. -/
def andThen (x : Step s α)
    (f : (value : α) → (next : State) → next.remaining < s.remaining → Step next β) : Step s β :=
  match x with
  | done value next shorter =>
    match f value next shorter with
    | done value' next' shorter' => done value' next' (Nat.lt_trans shorter' shorter)
    | failed fault stop => failed fault stop
  | failed fault stop => failed fault stop

/-- A step from a state that had no more before it. -/
def weaken {s₀ : State} (h : s.remaining ≤ s₀.remaining) : Step s α → Step s₀ α
  | done value next shorter => done value next (Nat.lt_of_lt_of_le shorter h)
  | failed fault stop => failed fault stop

end Step

/-! ## Taking a token -/

theorem remaining_lt_of_token {s : State} {t u : Token} {scanner : Scanner}
    (hl : s.lookahead = some t) (hn : s.scanner.nextToken = (.token u, scanner)) :
    (State.mk scanner (some u)).remaining < s.remaining := by
  have := Scanner.nextToken_length_lt hn
  simp only [State.remaining, hl, Option.toList_some, List.length_singleton]
  omega

theorem remaining_lt_of_finish {s : State} {t : Token} {scanner : Scanner}
    (hl : s.lookahead = some t) (hn : s.scanner.nextToken = (.finish, scanner)) :
    (State.mk scanner none).remaining < s.remaining := by
  have := s.scanner.nextToken_length_le
  simp only [hn] at this
  simp only [State.remaining, hl, Option.toList_some, Option.toList_none, List.length_singleton,
    List.length_nil]
  omega

namespace State

/-- Takes the next token if it is of the kind that has to come, and the one after it from the
scanner. A fault of the scanner leaves no next token; any other fault leaves the state as it is. -/
def eat (s : State) (kind : Kind) : Step s Token :=
  match hl : s.lookahead with
  | none => .failed (.unexpectedEnd kind) s
  | some token =>
    if token.kind = kind then
      match hn : s.scanner.nextToken with
      | (.token following, scanner) =>
        .done token ⟨scanner, some following⟩ (remaining_lt_of_token hl hn)
      | (.finish, scanner) => .done token ⟨scanner, none⟩ (remaining_lt_of_finish hl hn)
      | (.fault fault, scanner) => .failed (.lexical fault) ⟨scanner, none⟩
    else .failed (.unexpectedToken token.kind kind token.position) s

/-- The state before the first token of a text. -/
def prime (source : List Char) : Except ScanFault State :=
  match (Scanner.start source).nextToken with
  | (.token token, scanner) => .ok ⟨scanner, some token⟩
  | (.finish, scanner) => .ok ⟨scanner, none⟩
  | (.fault fault, _) => .error fault

end State

end Scriptlet
