import Scriptlet.Tree.Basic

/-!
# Scriptlet.Tree.Equality

Equality of trees. Two trees are equal when they have the same shape, names, texts and operators,
and equal numbers: a tree that holds something that is no number is not even equal to itself.
-/

namespace Scriptlet

def Expression.equal : Expression → Expression → Bool
  | .number x, .number y => x.equal y
  | .string s, .string t => s == t
  | .boolean a, .boolean b => a == b
  | .identifier m, .identifier n => m == n
  | .binary o l r, .binary o' l' r' => o == o' && (l.equal l' && r.equal r')
  | .declaration n v, .declaration n' v' => n == n' && v.equal v'
  | _, _ => false

mutual

def Statement.equal : Statement → Statement → Bool
  | .expression e, .expression e' => e.equal e'
  | .block b, .block b' => equalBodies b b'
  | .function n ps b, .function n' ps' b' => n == n' && (ps == ps' && equalBodies b b')
  | .conditional b, .conditional b' => b.equal b'
  | .forOf c e b, .forOf c' e' b' => c == c' && (e == e' && equalBodies b b')
  | _, _ => false

def Branch.equal : Branch → Branch → Bool
  | .mk t c a, .mk t' c' a' => t.equal t' && (equalBodies c c' && a.equal a')

def Alternate.equal : Alternate → Alternate → Bool
  | .absent, .absent => true
  | .block b, .block b' => equalBodies b b'
  | .branch b, .branch b' => b.equal b'
  | _, _ => false

def equalBodies : List Statement → List Statement → Bool
  | [], [] => true
  | s :: b, s' :: b' => s.equal s' && equalBodies b b'
  | _, _ => false

end

def Program.equal (p q : Program) : Bool := equalBodies p.statements q.statements

end Scriptlet
