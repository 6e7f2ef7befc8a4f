import Scriptlet.Json.Layout
import Scriptlet.Tree.Basic

/-!
# Scriptlet.Tree.Document

The JSON form in which a tree is handed over. Each node is an object whose first member is `type`,
the name of the node, followed by its parts in a fixed order. A statement that is an expression
has no node of its own, and a missing alternate is null.
-/

namespace Scriptlet

/-- An object for a node. -/
def nodeDocument (type : String) (parts : List (String × Json)) : Json :=
  .object (("type", .string type) :: parts)

def identifierDocument (name : String) : Json :=
  nodeDocument "Identifier" [("name", .string name)]

def Operator.document (o : Operator) : Json :=
  nodeDocument "BinaryOperator" [("kind", .string o.operation.name), ("symbol", .string o.symbol)]

def Expression.typeName : Expression → String
  | .number _ => "NumericLiteral"
  | .string _ => "StringLiteral"
  | .boolean _ => "BooleanLiteral"
  | .identifier _ => "Identifier"
  | .binary .. => "BinaryExpression"
  | .declaration .. => "VariableDeclaration"

def Expression.document : Expression → Json
  | .number x => nodeDocument "NumericLiteral" [("value", .ofNumber x)]
  | .string s => nodeDocument "StringLiteral" [("value", .string s)]
  | .boolean b => nodeDocument "BooleanLiteral" [("value", .boolean b)]
  | .identifier n => identifierDocument n
  | .binary o l r =>
    nodeDocument "BinaryExpression"
      [("operator", o.document), ("left", l.document), ("right", r.document)]
  | .declaration n v =>
    nodeDocument "VariableDeclaration" [("id", identifierDocument n), ("value", v.document)]

/-- An object for a node whose only part is a list of statements. -/
def listDocument (type : String) (statements : List Json) : Json :=
  nodeDocument type [("statements", .array statements)]

mutual

def Statement.document : Statement → Json
  | .expression e => e.document
  | .block b => listDocument "Block" (bodyDocuments b)
  | .function n ps b =>
    nodeDocument "Function"
      [("name", .string n), ("parameters", .array (ps.map identifierDocument)),
        ("body", listDocument "Block" (bodyDocuments b))]
  | .conditional b => b.document
  | .forOf c e b =>
    nodeDocument "ForOfStatement"
      [("left", identifierDocument c), ("right", identifierDocument e),
        ("body", listDocument "Block" (bodyDocuments b))]

def Branch.document : Branch → Json
  | .mk t c a =>
    nodeDocument "IfStatement"
      [("test", t.document), ("consequent", listDocument "Block" (bodyDocuments c)),
        ("alternate", a.document)]

def Alternate.document : Alternate → Json
  | .absent => .null
  | .block b => listDocument "Block" (bodyDocuments b)
  | .branch b => b.document

def bodyDocuments : List Statement → List Json
  | [] => []
  | s :: b => s.document :: bodyDocuments b

end

namespace Program

def document (p : Program) : Json := listDocument "Program" (bodyDocuments p.statements)

def compactText (p : Program) : String := p.document.compact

def indentedText (p : Program) : String := p.document.indented

end Program

end Scriptlet
