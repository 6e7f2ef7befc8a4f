import Scriptlet.Number.Binary64
import Scriptlet.Tree.Operator

/-!
# Scriptlet.Tree.Basic

The trees of programs:

* `Expression`  — literals, names, binary chains and declarations of variables.
* `Statement`   — expressions, blocks, functions, conditionals and loops over a collection.
* `Program`     — the statements of a text, in order.

A conditional is a `Branch`, so that what follows `else` can be another one.
-/

namespace Scriptlet

inductive Expression where
  | number (value : Binary64)
  | string (value : String)
  | boolean (value : Bool)
  | identifier (name : String)
  | binary (operator : Operator) (left right : Expression)
  | declaration (name : String) (value : Expression)
  deriving DecidableEq, Repr

mutual

inductive Statement where
  | expression (value : Expression)
  | block (body : List Statement)
  | function (name : String) (parameters : List String) (body : List Statement)
  | conditional (branch : Branch)
  /-- For each `element` of `collection`. -/
  | forOf (collection element : String) (body : List Statement)

inductive Branch where
  | mk (test : Expression) (consequent : List Statement) (alternate : Alternate)

/-- What follows the block of a conditional. -/
inductive Alternate where
  | absent
  | block (body : List Statement)
  | branch (other : Branch)

end

structure Program where
  statements : List Statement

namespace Program

def length (p : Program) : Nat := p.statements.length

def isEmpty (p : Program) : Bool := p.statements.isEmpty

end Program

end Scriptlet
