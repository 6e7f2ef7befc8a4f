import Scriptlet.Number.Nearest
import Scriptlet.Parser.State
import Scriptlet.Tree.Basic

/-!
# Scriptlet.Parser.Expression

Expressions:

    expression   →  declaration  |  literal (operator (literal | declaration))*
    declaration  →  let name = expression
    literal      →  number  |  string  |  boolean  |  name

A chain of operators nests to the right, and a declaration takes the rest of the chain as its
value. `chain` reads it in a loop and keeps what stands left of each operator, so that a long
chain needs no deep recursion; `foldChain` puts it together.
-/

namespace Scriptlet

namespace State

def name (s : State) : Step s String := (s.eat .identifier).map Token.lexeme

/-- A token whose text has a meaning. Text without one is a fault at the token. -/
def meaning {s : State} {α : Type} (kind : Kind) (read : String → Option α) (x : Step s Token) :
    Step s α :=
  match x with
  | .done token next shorter =>
    match read token.lexeme with
    | some value => .done value next shorter
    | none => .failed (.unexpectedToken token.kind kind token.position) next
  | .failed fault stop => .failed fault stop

def number (s : State) : Step s Expression :=
  meaning .number (fun l => (Binary64.read l.toList).map .number) (s.eat .number)

def string (s : State) : Step s Expression :=
  (s.eat .string).map fun t => .string (String.ofList ((Quote.unquote? t.lexeme.toList).getD []))

def boolean (s : State) : Step s Expression :=
  (s.eat .boolean).map fun t => .boolean (t.lexeme == "true")

/-- What is no number, string or boolean has to be a name. -/
def literal (s : State) : Step s Expression :=
  match s.kind? with
  | some .number => s.number
  | some .string => s.string
  | some .boolean => s.boolean
  | _ => s.name.map .identifier

def operator (s : State) : Step s Operator :=
  meaning .operator (fun l => (Operation.ofSymbol? l).map fun o => ⟨o, l⟩) (s.eat .operator)

end State

/-- A chain whose last operand is `last`; the operands before it, each with the operator after it,
are in reverse. -/
def foldChain (last : Expression) (before : List (Expression × Operator)) : Expression :=
  before.foldl (fun right x => .binary x.2 x.1 right) last

namespace State

mutual

def expression (s : State) : Step s Expression :=
  if s.check .letWord then s.declaration
  else
    match s.literal with
    | .done value next shorter => chain s [] value next shorter
    | .failed fault stop => .failed fault stop
termination_by (s.remaining, 1)

def declaration (s : State) : Step s Expression :=
  (s.eat .letWord).andThen fun _ s₁ _ =>
  s₁.name.andThen fun name s₂ _ =>
  (s₂.eat .assign).andThen fun _ s₃ _ =>
  s₃.expression.map fun value => .declaration name value
termination_by (s.remaining, 0)

/-- The rest of a chain that began in state `s₀`, after its operand `last`. -/
def chain (s₀ : State) (before : List (Expression × Operator)) (last : Expression) (s : State)
    (h : s.remaining < s₀.remaining) : Step s₀ Expression :=
  if s.check .operator then
    match s.operator with
    | .failed fault stop => .failed fault stop
    | .done operator s₁ h₁ =>
      match (if s₁.check .letWord then s₁.declaration else s₁.literal) with
      | .failed fault stop => .failed fault stop
      | .done operand s₂ h₂ =>
        chain s₀ ((last, operator) :: before) operand s₂ (Nat.lt_trans h₂ (Nat.lt_trans h₁ h))
  else .done (foldChain last before) s h
termination_by (s.remaining, 2)

end

end State

end Scriptlet
