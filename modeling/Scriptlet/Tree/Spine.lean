import Scriptlet.Tree.Document

/-!
# Scriptlet.Tree.Spine

The spine of a program is one path from its root, given by the type names of the nodes on it. It
goes to the first statement of a body, to the right operand of a binary expression, to the value
of a declaration, and in a conditional to its last alternate, or to its block if there is none.
-/

namespace Scriptlet

def Expression.spine : Expression → List String
  | .binary o l r => (Expression.binary o l r).typeName :: r.spine
  | .declaration n v => (Expression.declaration n v).typeName :: v.spine
  | e => [e.typeName]

mutual

def Statement.spine : Statement → List String
  | .expression e => e.spine
  | .block b => "Block" :: bodySpine b
  | .function _ _ b => "Function" :: bodySpine b
  | .conditional b => b.spine
  | .forOf _ _ b => "ForOfStatement" :: bodySpine b

def Branch.spine : Branch → List String
  | .mk _ c .absent => "IfStatement" :: bodySpine c
  | .mk _ _ (.block b) => "IfStatement" :: bodySpine b
  | .mk _ _ (.branch b) => "IfStatement" :: b.spine

def bodySpine : List Statement → List String
  | [] => []
  | s :: _ => s.spine

end

def Program.spine (p : Program) : List String := bodySpine p.statements

end Scriptlet
