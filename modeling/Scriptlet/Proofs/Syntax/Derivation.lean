import Scriptlet.Number.Nearest
import Scriptlet.Proofs.Scan.Feed
import Scriptlet.Tree.Basic

/-!
# Scriptlet.Proofs.Syntax.Derivation

The grammar as relations between lists of tokens and trees:

* `Leaf`               — a literal or a name, from its one token.
* `DerivesExpression`  — declarations, and leaves with operators between them.
* `DerivesParameters`  — names between parentheses, with commas between them. One more comma may
                         stand before the closing parenthesis.
* `DerivesPhrase c`    — statements and their parts, one category `c` for each.
* `Derives`            — programs: one statement or more.

A tree of `DerivesPhrase` belongs to its category, so that one induction serves all of them.
-/

namespace Scriptlet

inductive Leaf : Token → Expression → Prop where
  | number {t : Token} {x : Binary64} : t.kind = .number →
      Binary64.read t.lexeme.toList = some x → Leaf t (.number x)
  | string {t : Token} {inner : List Char} : t.kind = .string →
      Quote.unquote? t.lexeme.toList = some inner → Leaf t (.string (String.ofList inner))
  | boolean {t : Token} {b : Bool} : t.kind = .boolean → t.lexeme = toString b →
      Leaf t (.boolean b)
  | identifier {t : Token} : t.kind = .identifier → Leaf t (.identifier t.lexeme)

inductive DerivesExpression : List Token → Expression → Prop where
  | leaf {t : Token} {e : Expression} : Leaf t e → DerivesExpression [t] e
  | binary {t o : Token} {ts : List Token} {l r : Expression} {p : Operation} :
      Leaf t l → o.kind = .operator → Operation.ofSymbol? o.lexeme = some p →
      DerivesExpression ts r → DerivesExpression (t :: o :: ts) (.binary ⟨p, o.lexeme⟩ l r)
  | declaration {d n a : Token} {ts : List Token} {v : Expression} :
      d.kind = .letWord → n.kind = .identifier → a.kind = .assign → DerivesExpression ts v →
      DerivesExpression (d :: n :: a :: ts) (.declaration n.lexeme v)

/-- What follows a parameter, up to the closing parenthesis. -/
inductive DerivesFurther : List Token → List String → Prop where
  | close {c : Token} : c.kind = .closeParen → DerivesFurther [c] []
  | trailing {m c : Token} : m.kind = .comma → c.kind = .closeParen → DerivesFurther [m, c] []
  | more {m n : Token} {ts : List Token} {ns : List String} : m.kind = .comma →
      n.kind = .identifier → DerivesFurther ts ns → DerivesFurther (m :: n :: ts) (n.lexeme :: ns)

inductive DerivesParameters : List Token → List String → Prop where
  | none {o c : Token} : o.kind = .openParen → c.kind = .closeParen → DerivesParameters [o, c] []
  | some {o n : Token} {ts : List Token} {ns : List String} : o.kind = .openParen →
      n.kind = .identifier → DerivesFurther ts ns →
      DerivesParameters (o :: n :: ts) (n.lexeme :: ns)

inductive Category where
  | statement
  | block
  /-- Any number of statements. -/
  | body
  | branch
  /-- What may follow the block of a conditional. -/
  | alternate
  deriving DecidableEq, Repr

@[reducible] def Category.Tree : Category → Type
  | statement => Statement
  | block | body => List Statement
  | branch => Branch
  | alternate => Alternate

inductive DerivesPhrase : (c : Category) → List Token → c.Tree → Prop where
  | expression {ts : List Token} {s : Token} {e : Expression} : DerivesExpression ts e →
      s.kind = .semicolon → DerivesPhrase .statement (ts ++ [s]) (Statement.expression e)
  | block {ts : List Token} {b : List Statement} : DerivesPhrase .block ts b →
      DerivesPhrase .statement ts (Statement.block b)
  | function {f n : Token} {ts us : List Token} {ps : List String} {b : List Statement} :
      f.kind = .functionWord → n.kind = .identifier → DerivesParameters ts ps →
      DerivesPhrase .block us b →
      DerivesPhrase .statement (f :: n :: ts ++ us) (Statement.function n.lexeme ps b)
  | conditional {ts : List Token} {b : Branch} : DerivesPhrase .branch ts b →
      DerivesPhrase .statement ts (Statement.conditional b)
  | forOf {f o l x w y c : Token} {ts : List Token} {b : List Statement} :
      f.kind = .forWord → o.kind = .openParen → l.kind = .letWord → x.kind = .identifier →
      w.kind = .ofWord → y.kind = .identifier → c.kind = .closeParen → DerivesPhrase .block ts b →
      DerivesPhrase .statement (f :: o :: l :: x :: w :: y :: c :: ts)
        (Statement.forOf y.lexeme x.lexeme b)
  | braces {o c : Token} {ts : List Token} {b : List Statement} : o.kind = .openBrace →
      DerivesPhrase .body ts b → c.kind = .closeBrace → DerivesPhrase .block (o :: ts ++ [c]) b
  | nil : DerivesPhrase .body [] ([] : List Statement)
  | cons {ts us : List Token} {s : Statement} {b : List Statement} :
      DerivesPhrase .statement ts s → DerivesPhrase .body us b →
      DerivesPhrase .body (ts ++ us) (s :: b)
  | branch {i o c : Token} {ts us vs : List Token} {e : Expression} {b : List Statement}
      {a : Alternate} : i.kind = .ifWord → o.kind = .openParen → DerivesExpression ts e →
      c.kind = .closeParen → DerivesPhrase .block us b → DerivesPhrase .alternate vs a →
      DerivesPhrase .branch (i :: o :: ts ++ c :: us ++ vs) (Branch.mk e b a)
  | absent : DerivesPhrase .alternate [] Alternate.absent
  | elseBlock {w : Token} {ts : List Token} {b : List Statement} : w.kind = .elseWord →
      DerivesPhrase .block ts b → DerivesPhrase .alternate (w :: ts) (Alternate.block b)
  | elseBranch {w : Token} {ts : List Token} {b : Branch} : w.kind = .elseWord →
      DerivesPhrase .branch ts b → DerivesPhrase .alternate (w :: ts) (Alternate.branch b)

structure Derives (ts : List Token) (p : Program) : Prop where
  body : DerivesPhrase .body ts p.statements
  nonempty : p.statements ≠ []

/-! ## First tokens -/

/-- The kind of the first of some tokens. -/
def nextKind (ts : List Token) : Option Kind := (ts.map Token.kind).head?

@[simp] theorem nextKind_nil : nextKind [] = none := rfl

@[simp] theorem nextKind_cons (t : Token) (ts : List Token) :
    nextKind (t :: ts) = some t.kind := rfl

theorem nextKind_ne {t : Token} {k l : Kind} (h : t.kind = k) (hne : k ≠ l) (ts : List Token) :
    nextKind (t :: ts) ≠ some l := by
  intro heq
  rw [nextKind_cons, h] at heq
  exact hne (Option.some.inj heq)

/-- The forms of statements, each with tokens of its own to begin with. -/
inductive Form where
  | expression
  | block
  | function
  | conditional
  | forOf
  deriving DecidableEq, Repr

/-- The form of a statement that begins with a token of a kind. -/
def Kind.form? : Kind → Option Form
  | number | string | boolean | identifier | letWord => some .expression
  | openBrace => some .block
  | functionWord => some .function
  | ifWord => some .conditional
  | forWord => some .forOf
  | _ => none

def Statement.form : Statement → Form
  | expression _ => .expression
  | block _ => .block
  | function .. => .function
  | conditional _ => .conditional
  | forOf .. => .forOf

theorem Leaf.form? {t : Token} {e : Expression} (h : Leaf t e) :
    t.kind.form? = some .expression := by
  cases h <;> simp_all [Kind.form?]

theorem Leaf.ne_letWord {t : Token} {e : Expression} (h : Leaf t e) : t.kind ≠ .letWord := by
  cases h <;> simp_all

theorem DerivesExpression.head {ts : List Token} {e : Expression} (h : DerivesExpression ts e) :
    ∃ t us, ts = t :: us ∧ t.kind.form? = some .expression := by
  cases h with
  | leaf ht => exact ⟨_, _, rfl, ht.form?⟩
  | binary ht _ _ _ => exact ⟨_, _, rfl, ht.form?⟩
  | declaration hd _ _ _ => exact ⟨_, _, rfl, by rw [hd]; rfl⟩

theorem DerivesPhrase.head_block {ts : List Token} {b : List Statement}
    (h : DerivesPhrase .block ts b) : ∃ t us, ts = t :: us ∧ t.kind = .openBrace := by
  cases h with
  | braces ho _ _ => exact ⟨_, _, rfl, ho⟩

theorem DerivesPhrase.head_branch {ts : List Token} {b : Branch}
    (h : DerivesPhrase .branch ts b) : ∃ t us, ts = t :: us ∧ t.kind = .ifWord := by
  cases h with
  | branch hi _ _ _ _ _ => exact ⟨_, _, rfl, hi⟩

theorem DerivesPhrase.head_statement {ts : List Token} {s : Statement}
    (h : DerivesPhrase .statement ts s) :
    ∃ t us, ts = t :: us ∧ t.kind.form? = some s.form := by
  cases h with
  | expression he _ =>
    obtain ⟨t, us, rfl, ht⟩ := he.head
    exact ⟨t, _, rfl, ht⟩
  | block hb =>
    obtain ⟨t, us, rfl, ht⟩ := hb.head_block
    exact ⟨t, us, rfl, by rw [ht]; rfl⟩
  | function hf _ _ _ => exact ⟨_, _, rfl, by rw [hf]; rfl⟩
  | conditional hb =>
    obtain ⟨t, us, rfl, ht⟩ := hb.head_branch
    exact ⟨t, us, rfl, by rw [ht]; rfl⟩
  | forOf hf _ _ _ _ _ _ _ => exact ⟨_, _, rfl, by rw [hf]; rfl⟩

end Scriptlet
