/-!
# Scriptlet.Tree.Operator

The four binary operators. An operator of a tree keeps the symbol it was written with beside its
operation; the two agree in every tree that was read from a text.
-/

namespace Scriptlet

inductive Operation where
  | and
  | or
  | equal
  | notEqual
  deriving DecidableEq, Repr

namespace Operation

def all : List Operation := [and, or, equal, notEqual]

def name : Operation → String
  | and => "And"
  | or => "Or"
  | equal => "Equal"
  | notEqual => "NotEqual"

def symbol : Operation → String
  | and => "&&"
  | or => "||"
  | equal => "=="
  | notEqual => "!="

def ofSymbol? (s : String) : Option Operation := all.find? fun o => o.symbol == s

theorem ofSymbol?_symbol (o : Operation) : ofSymbol? o.symbol = some o := by
  cases o <;> decide

theorem ofSymbol?_eq_some_iff {s : String} {o : Operation} :
    ofSymbol? s = some o ↔ s = o.symbol := by
  constructor
  · intro h
    have := List.find?_some h
    simpa using (by simpa using this : o.symbol = s).symm
  · rintro rfl
    exact ofSymbol?_symbol o

end Operation

structure Operator where
  operation : Operation
  symbol : String
  deriving DecidableEq, Repr

def Operation.operator (o : Operation) : Operator := ⟨o, o.symbol⟩

end Scriptlet
