import Scriptlet.Parser.Expression

/-!
# Scriptlet.Parser.Statement

Statements:

    statement    →  block  |  loop  |  conditional  |  function  |  expression ;
    block        →  { statement* }
    function     →  function name parameters block
    parameters   →  ( (name (, name)* ,?)? )
    conditional  →  if ( expression ) block (else (conditional | block))?
    loop         →  for ( let name of name ) block

The next token alone decides which form a statement has. A comma and a closing parenthesis that
stand together are one token, which is refused after a parameter; they are two tokens if anything
stands between them, and then the list ends after the comma.
-/

namespace Scriptlet

namespace State

/-- Parameters from after the opening parenthesis, those read before kept in reverse. -/
def parametersFrom (s₀ : State) (read : List String) (s : State)
    (h : s.remaining < s₀.remaining) : Step s₀ (List String) :=
  if s.check .closeParen then
    match s.eat .closeParen with
    | .done _ s₁ h₁ => .done read.reverse s₁ (Nat.lt_trans h₁ h)
    | .failed fault stop => .failed fault stop
  else
    match s.name with
    | .failed fault stop => .failed fault stop
    | .done name s₁ h₁ =>
      match s₁.lookahead with
      | some ⟨.commaCloseParen, _, position⟩ =>
        .failed (.unexpectedToken .comma .closeParen position) s₁
      | _ =>
        if s₁.check .closeParen then
          parametersFrom s₀ (name :: read) s₁ (Nat.lt_trans h₁ h)
        else
          match s₁.eat .comma with
          | .failed fault stop => .failed fault stop
          | .done _ s₂ h₂ =>
            parametersFrom s₀ (name :: read) s₂ (Nat.lt_trans h₂ (Nat.lt_trans h₁ h))
termination_by s.remaining

def parameters (s : State) : Step s (List String) :=
  match s.eat .openParen with
  | .done _ s₁ h₁ => parametersFrom s [] s₁ h₁
  | .failed fault stop => .failed fault stop

/-- Whether a list of statements ends here: at the end of the text, or at a token of a kind. -/
def endsList (s : State) (stop : Option Kind) : Bool :=
  s.atEnd || match stop with
    | some kind => s.check kind
    | none => false

def expressionStatement (s : State) : Step s Statement :=
  s.expression.andThen fun value s₁ _ =>
  (s₁.eat .semicolon).map fun _ => .expression value

mutual

def statement (s : State) : Step s Statement :=
  match s.kind? with
  | some .openBrace => s.block.map .block
  | some .forWord => s.forOf
  | some .ifWord => s.conditional.map .conditional
  | some .functionWord => s.function
  | _ => s.expressionStatement
termination_by (s.remaining, 1)

/-- One statement and those that follow it, up to the end of the list. -/
def statements (s : State) (stop : Option Kind) : Step s (List Statement) :=
  match s.statement with
  | .done value s₁ h₁ => statementsFrom s stop [value] s₁ h₁
  | .failed fault stop => .failed fault stop
termination_by (s.remaining, 2)

/-- Statements of a list that began in state `s₀`, those read before kept in reverse. -/
def statementsFrom (s₀ : State) (stop : Option Kind) (read : List Statement) (s : State)
    (h : s.remaining < s₀.remaining) : Step s₀ (List Statement) :=
  if s.endsList stop then .done read.reverse s h
  else
    match s.statement with
    | .done value s₁ h₁ => statementsFrom s₀ stop (value :: read) s₁ (Nat.lt_trans h₁ h)
    | .failed fault stop => .failed fault stop
termination_by (s.remaining, 2)

def block (s : State) : Step s (List Statement) :=
  (s.eat .openBrace).andThen fun _ s₁ _ =>
  if s₁.endsList (some .closeBrace) then (s₁.eat .closeBrace).map fun _ => []
  else
    (s₁.statements (some .closeBrace)).andThen fun body s₂ _ =>
    (s₂.eat .closeBrace).map fun _ => body
termination_by (s.remaining, 0)

def function (s : State) : Step s Statement :=
  (s.eat .functionWord).andThen fun _ s₁ _ =>
  s₁.name.andThen fun name s₂ _ =>
  s₂.parameters.andThen fun parameters s₃ _ =>
  s₃.block.map fun body => .function name parameters body
termination_by (s.remaining, 0)

def conditional (s : State) : Step s Branch :=
  (s.eat .ifWord).andThen fun _ s₁ _ =>
  (s₁.eat .openParen).andThen fun _ s₂ _ =>
  s₂.expression.andThen fun test s₃ _ =>
  (s₃.eat .closeParen).andThen fun _ s₄ _ =>
  match s₄.block with
  | .failed fault stop => .failed fault stop
  | .done consequent s₅ h₅ =>
    if s₅.check .elseWord then
      ((s₅.eat .elseWord).andThen fun _ s₆ _ =>
        (if s₆.check .ifWord then s₆.conditional.map .branch else s₆.block.map .block).map
          fun alternate => .mk test consequent alternate).weaken (Nat.le_of_lt h₅)
    else .done (.mk test consequent .absent) s₅ h₅
termination_by (s.remaining, 0)

def forOf (s : State) : Step s Statement :=
  (s.eat .forWord).andThen fun _ s₁ _ =>
  (s₁.eat .openParen).andThen fun _ s₂ _ =>
  (s₂.eat .letWord).andThen fun _ s₃ _ =>
  s₃.name.andThen fun element s₄ _ =>
  (s₄.eat .ofWord).andThen fun _ s₅ _ =>
  s₅.name.andThen fun collection s₆ _ =>
  (s₆.eat .closeParen).andThen fun _ s₇ _ =>
  s₇.block.map fun body => .forOf collection element body
termination_by (s.remaining, 0)

end

end State

end Scriptlet
