import Mathlib.Data.List.Forall2
import Scriptlet.Proofs.Syntax.Derivation
import Scriptlet.Tree.Document

/-!
# Scriptlet.Proofs.Json.Members

The documented node of each tree, with its type and the values of its members:

* `NumberValue j x`     — the value of a number, null if it has no text.
* `OperationName s o`   — the name of the operation of an operator.
* `IdentifierNode j n`, `OperatorNode j o`
* `ExpressionNode j e`  — one constructor for each type of expression.
* `PhraseNode c j x`    — the same for statements and their parts. A body has no node of its own,
                          only an array.
* `ProgramNode j p`

The nodes are given here as the table of them has it, without the functions that make documents.
Each tree has exactly one, which is its document (`programNode_iff`).
-/

namespace Scriptlet

inductive OperationName : String → Operation → Prop where
  | and : OperationName "And" .and
  | or : OperationName "Or" .or
  | equal : OperationName "Equal" .equal
  | notEqual : OperationName "NotEqual" .notEqual

inductive NumberValue : Json → Binary64 → Prop where
  | finite {x : Binary64} : x.isFinite = true → NumberValue (.number x) x
  /-- Infinities and what is no number. -/
  | null {x : Binary64} : x.isFinite = false → NumberValue .null x

inductive IdentifierNode : Json → String → Prop where
  | mk (name : String) :
      IdentifierNode (.object [("type", .string "Identifier"), ("name", .string name)]) name

inductive OperatorNode : Json → Operator → Prop where
  | mk {kind : String} {operation : Operation} (symbol : String) : OperationName kind operation →
      OperatorNode
        (.object [("type", .string "BinaryOperator"), ("kind", .string kind),
          ("symbol", .string symbol)])
        ⟨operation, symbol⟩

inductive ExpressionNode : Json → Expression → Prop where
  | number {value : Json} {x : Binary64} : NumberValue value x →
      ExpressionNode (.object [("type", .string "NumericLiteral"), ("value", value)]) (.number x)
  | string (s : String) :
      ExpressionNode (.object [("type", .string "StringLiteral"), ("value", .string s)])
        (.string s)
  | boolean (b : Bool) :
      ExpressionNode (.object [("type", .string "BooleanLiteral"), ("value", .boolean b)])
        (.boolean b)
  | identifier {j : Json} {n : String} : IdentifierNode j n → ExpressionNode j (.identifier n)
  | binary {operator left right : Json} {o : Operator} {l r : Expression} :
      OperatorNode operator o → ExpressionNode left l → ExpressionNode right r →
      ExpressionNode
        (.object [("type", .string "BinaryExpression"), ("operator", operator), ("left", left),
          ("right", right)])
        (.binary o l r)
  | declaration {id value : Json} {n : String} {v : Expression} :
      IdentifierNode id n → ExpressionNode value v →
      ExpressionNode
        (.object [("type", .string "VariableDeclaration"), ("id", id), ("value", value)])
        (.declaration n v)

inductive PhraseNode : (c : Category) → Json → c.Tree → Prop where
  | expression {j : Json} {e : Expression} : ExpressionNode j e →
      PhraseNode .statement j (Statement.expression e)
  | block {j : Json} {b : List Statement} : PhraseNode .block j b →
      PhraseNode .statement j (Statement.block b)
  | function {parameters : List Json} {body : Json} {ps : List String} {b : List Statement}
      (name : String) : List.Forall₂ IdentifierNode parameters ps → PhraseNode .block body b →
      PhraseNode .statement
        (.object [("type", .string "Function"), ("name", .string name),
          ("parameters", .array parameters), ("body", body)])
        (Statement.function name ps b)
  | conditional {j : Json} {b : Branch} : PhraseNode .branch j b →
      PhraseNode .statement j (Statement.conditional b)
  | forOf {left right body : Json} {collection element : String} {b : List Statement} :
      IdentifierNode left collection → IdentifierNode right element → PhraseNode .block body b →
      PhraseNode .statement
        (.object [("type", .string "ForOfStatement"), ("left", left), ("right", right),
          ("body", body)])
        (Statement.forOf collection element b)
  | braces {statements : Json} {b : List Statement} : PhraseNode .body statements b →
      PhraseNode .block (.object [("type", .string "Block"), ("statements", statements)]) b
  | nil : PhraseNode .body (.array []) ([] : List Statement)
  | cons {j : Json} {js : List Json} {s : Statement} {b : List Statement} :
      PhraseNode .statement j s → PhraseNode .body (.array js) b →
      PhraseNode .body (.array (j :: js)) (s :: b)
  | branch {test consequent alternate : Json} {t : Expression} {b : List Statement}
      {a : Alternate} : ExpressionNode test t → PhraseNode .block consequent b →
      PhraseNode .alternate alternate a →
      PhraseNode .branch
        (.object [("type", .string "IfStatement"), ("test", test), ("consequent", consequent),
          ("alternate", alternate)])
        (Branch.mk t b a)
  | absent : PhraseNode .alternate .null Alternate.absent
  | elseBlock {j : Json} {b : List Statement} : PhraseNode .block j b →
      PhraseNode .alternate j (Alternate.block b)
  | elseBranch {j : Json} {b : Branch} : PhraseNode .branch j b →
      PhraseNode .alternate j (Alternate.branch b)

inductive ProgramNode : Json → Program → Prop where
  | mk {statements : Json} {p : Program} : PhraseNode .body statements p.statements →
      ProgramNode (.object [("type", .string "Program"), ("statements", statements)]) p

/-! ## Members -/

theorem operationName_iff {s : String} {o : Operation} : OperationName s o ↔ s = o.name := by
  constructor
  · intro h
    cases h <;> rfl
  · rintro rfl
    cases o <;> constructor

theorem numberValue_iff {j : Json} {x : Binary64} : NumberValue j x ↔ j = Json.ofNumber x := by
  unfold Json.ofNumber
  constructor
  · intro h
    cases h with
    | finite hx => rw [if_pos hx]
    | null hx => simp [hx]
  · rintro rfl
    cases hx : x.isFinite with
    | true => exact .finite hx
    | false => exact .null hx

theorem identifierNode_iff {j : Json} {n : String} :
    IdentifierNode j n ↔ j = identifierDocument n := by
  constructor
  · rintro ⟨n⟩
    rfl
  · rintro rfl
    exact .mk n

theorem identifierNodes_iff {js : List Json} {ns : List String} :
    List.Forall₂ IdentifierNode js ns ↔ js = ns.map identifierDocument := by
  induction ns generalizing js with
  | nil => simp
  | cons n ns ih => simp [List.forall₂_cons_right_iff, identifierNode_iff, ih]

theorem operatorNode_iff {j : Json} {o : Operator} : OperatorNode j o ↔ j = o.document := by
  constructor
  · rintro ⟨symbol, hkind⟩
    rw [operationName_iff.1 hkind]
    rfl
  · rintro rfl
    exact .mk o.symbol (operationName_iff.2 rfl)

/-! ## Nodes -/

theorem Expression.node (e : Expression) : ExpressionNode e.document e := by
  induction e with
  | number x => exact .number (numberValue_iff.2 rfl)
  | string s => exact .string s
  | boolean b => exact .boolean b
  | identifier n => exact .identifier (identifierNode_iff.2 rfl)
  | binary o l r ihl ihr => exact .binary (operatorNode_iff.2 rfl) ihl ihr
  | declaration n v ih => exact .declaration (identifierNode_iff.2 rfl) ih

theorem expressionNode_iff {j : Json} {e : Expression} :
    ExpressionNode j e ↔ j = e.document := by
  constructor
  · intro h
    induction h with
    | number hx =>
      rw [numberValue_iff.1 hx]
      rfl
    | string s => rfl
    | boolean b => rfl
    | identifier hn => exact identifierNode_iff.1 hn
    | binary ho _ _ ihl ihr =>
      rw [operatorNode_iff.1 ho, ihl, ihr]
      rfl
    | declaration hn _ ih =>
      rw [identifierNode_iff.1 hn, ih]
      rfl
  · rintro rfl
    exact e.node

/-- The document of a tree of a category. -/
def Category.document : (c : Category) → c.Tree → Json
  | statement, s => Statement.document s
  | block, b => listDocument "Block" (bodyDocuments b)
  | body, b => .array (bodyDocuments b)
  | branch, b => Branch.document b
  | alternate, a => Alternate.document a

mutual

theorem Statement.node (s : Statement) : PhraseNode .statement s.document s := by
  cases s with
  | expression e => exact .expression e.node
  | block b => exact .block (.braces (bodyNode b))
  | function n ps b => exact .function n (identifierNodes_iff.2 rfl) (.braces (bodyNode b))
  | conditional b => exact .conditional b.node
  | forOf c e b =>
    exact .forOf (identifierNode_iff.2 rfl) (identifierNode_iff.2 rfl) (.braces (bodyNode b))

theorem Branch.node (b : Branch) : PhraseNode .branch b.document b := by
  obtain ⟨t, c, a⟩ := b
  exact .branch t.node (.braces (bodyNode c)) a.node

theorem Alternate.node (a : Alternate) : PhraseNode .alternate a.document a := by
  cases a with
  | absent => exact .absent
  | block b => exact .elseBlock (.braces (bodyNode b))
  | branch b => exact .elseBranch b.node

theorem bodyNode (b : List Statement) : PhraseNode .body (.array (bodyDocuments b)) b := by
  cases b with
  | nil => exact .nil
  | cons s b => exact .cons s.node (bodyNode b)

end

theorem PhraseNode.eq_document {c : Category} {j : Json} {x : c.Tree} (h : PhraseNode c j x) :
    j = c.document x := by
  induction h with
  | expression he => exact expressionNode_iff.1 he
  | block _ ih => exact ih
  | function n hps _ ih =>
    rw [identifierNodes_iff.1 hps, ih]
    rfl
  | conditional _ ih => exact ih
  | forOf hc he _ ih =>
    rw [identifierNode_iff.1 hc, identifierNode_iff.1 he, ih]
    rfl
  | braces _ ih =>
    rw [ih]
    rfl
  | nil => rfl
  | cons _ _ ihs ihb =>
    rw [ihs, Json.array.inj ihb]
    rfl
  | branch ht _ _ ihb iha =>
    rw [expressionNode_iff.1 ht, ihb, iha]
    rfl
  | absent => rfl
  | elseBlock _ ih => exact ih
  | elseBranch _ ih => exact ih

theorem programNode_iff {j : Json} {p : Program} : ProgramNode j p ↔ j = p.document := by
  constructor
  · rintro ⟨hbody⟩
    rw [hbody.eq_document]
    rfl
  · rintro rfl
    exact .mk (bodyNode p.statements)

end Scriptlet
