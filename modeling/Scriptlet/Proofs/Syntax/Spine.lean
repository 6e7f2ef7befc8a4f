import Scriptlet.Proofs.Syntax.Acceptance
import Scriptlet.Tree.Spine

/-!
# Scriptlet.Proofs.Syntax.Spine

How far the spine of a tree goes, by the tokens that the tree was read from.

In an expression every node of the spine but the last one has an operator of its own, or the three
tokens that begin a declaration, and there is one leaf more. So twice the length of the spine counts
the tokens, up to one for each `let` (`DerivesExpression.spine_length`). Every other node has two
tokens at least, as a block has its braces, and no text is read as a tree that goes deeper than half
of its tokens (`spine_length_le`).
-/

namespace Scriptlet

theorem Leaf.spine_length {t : Token} {e : Expression} (h : Leaf t e) : e.spine.length = 1 := by
  cases h <;> rfl

theorem DerivesExpression.spine_length {ts : List Token} {e : Expression}
    (h : DerivesExpression ts e) :
    2 * e.spine.length + (ts.map Token.kind).count .letWord = ts.length + 1 := by
  induction h with
  | leaf ht => simp [ht.spine_length, ht.ne_letWord]
  | binary ht ho hp _ ih =>
    simp only [Expression.spine, List.length_cons, List.map_cons, ho, ne_eq, ht.ne_letWord,
      not_false_eq_true, List.count_cons_of_ne, reduceCtorEq]
    omega
  | declaration hd hn ha _ ih =>
    simp only [Expression.spine, List.length_cons, List.map_cons, hd, hn, ha,
      List.count_cons_self, ne_eq, reduceCtorEq, not_false_eq_true, List.count_cons_of_ne]
    omega

/-- The spine of a tree of a category. That of a block begins with the block itself. -/
def Category.spine : (c : Category) → c.Tree → List String
  | statement, s => Statement.spine s
  | block, b => "Block" :: bodySpine b
  | body, b => bodySpine b
  | branch, b => Branch.spine b
  | alternate, .absent => []
  | alternate, .block b => "Block" :: bodySpine b
  | alternate, .branch b => b.spine

theorem DerivesPhrase.spine_length_le {c : Category} {ts : List Token} {x : c.Tree}
    (h : DerivesPhrase c ts x) : 2 * (c.spine x).length ≤ ts.length := by
  induction h with
  | expression he _ =>
    have hlength := he.spine_length
    simp only [Category.spine, Statement.spine, List.length_append, List.length_singleton]
    omega
  | block _ ih => exact ih
  | function _ _ _ _ ih =>
    simp only [Category.spine, Statement.spine, List.length_append, List.length_cons] at ih ⊢
    omega
  | conditional _ ih => exact ih
  | forOf _ _ _ _ _ _ _ _ ih =>
    simp only [Category.spine, Statement.spine, List.length_cons] at ih ⊢
    omega
  | braces _ _ _ ih =>
    simp only [Category.spine, List.length_append, List.length_cons, List.length_nil] at ih ⊢
    omega
  | nil => exact Nat.le_refl _
  | cons _ _ ihs _ =>
    simp only [Category.spine, bodySpine, List.length_append] at ihs ⊢
    omega
  | @branch _ _ _ _ _ _ _ _ a _ _ _ _ _ _ ihb iha =>
    -- The spine goes to the alternate if there is one.
    cases a with
    | absent | block other | branch other =>
      simp only [Category.spine, Branch.spine, List.length_append, List.length_cons] at ihb iha ⊢
      omega
  | absent => exact Nat.le_refl _
  | elseBlock _ _ ih => exact Nat.le_succ_of_le ih
  | elseBranch _ _ ih => exact Nat.le_succ_of_le ih

theorem spine_length_le {source : String} {p : Program} (h : parse source = .ok p) :
    2 * p.spine.length ≤ (scan source).tokens.length := by
  obtain ⟨ts, hts, hp⟩ := derives_of_parse h
  rw [hts]
  exact hp.body.spine_length_le

end Scriptlet
