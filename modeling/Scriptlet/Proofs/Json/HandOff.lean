import Scriptlet.Proofs.Json.Members
import Scriptlet.Proofs.Json.Nodes
import Scriptlet.Proofs.Syntax.Image

/-!
# Scriptlet.Proofs.Json.HandOff

The JSON text of a program, as another program reads it. What is read is the document of the
program (`read_compactText`, `read_indentedText`), and that is its one node, with all the members
of the table (`programNode_iff`). So programs have the same text exactly if they have the same
document (`Program.compactText_eq_iff`), and a program that was itself read from a text holds only
one number without a text of its own, which is infinity (`Program.Expressible.mapNumbers_collapse`).
`compactText_faithful` puts these together.
-/

namespace Scriptlet

open Json

/-- What is read from the text of a program is its document. -/
theorem read_compactText (p : Program) : Json.read p.compactText = some p.document :=
  read_text Layout.blank_compact p.every_hasText

theorem read_indentedText (p : Program) : Json.read p.indentedText = some p.document :=
  read_text Layout.blank_indented p.every_hasText

theorem Program.compactText_eq_iff (p q : Program) :
    p.compactText = q.compactText ↔ p.document = q.document := by
  constructor
  · intro h
    have hread := congrArg Json.read h
    rw [read_compactText, read_compactText] at hread
    exact Option.some.inj hread
  · intro h
    rw [compactText, compactText, h]

/-! ## Programs of texts -/

theorem Binary64.Whole.collapse_eq {x : Binary64} (h : x.Whole) : x.collapse = x := by
  unfold collapse
  split
  · rfl
  · obtain hmagnitude | ⟨hfinite, -⟩ := h.integral
    · apply ext_bits
      · rw [h.nonnegative]
        decide +kernel
      · rw [hmagnitude]
        decide +kernel
    · contradiction

theorem Expression.Expressible.mapNumbers_collapse {e : Expression} (h : e.Expressible) :
    e.mapNumbers Binary64.collapse = e := by
  induction h with
  | number hx => rw [mapNumbers, hx.collapse_eq]
  | binary _ _ _ _ ihl ihr => rw [mapNumbers, ihl, ihr]
  | declaration _ _ ih => rw [mapNumbers, ih]
  | _ => rfl

def Category.mapNumbers (f : Binary64 → Binary64) : (c : Category) → c.Tree → c.Tree
  | statement, s => Statement.mapNumbers f s
  | block, b | body, b => mapBody f b
  | branch, b => Branch.mapNumbers f b
  | alternate, a => Alternate.mapNumbers f a

theorem Expressible.mapNumbers_collapse {c : Category} {x : c.Tree} (h : Expressible c x) :
    c.mapNumbers Binary64.collapse x = x := by
  induction h with
  | expression he =>
    rw [Category.mapNumbers, Statement.mapNumbers, he.mapNumbers_collapse]
  | block _ ih => exact congrArg Statement.block ih
  | function _ _ _ ih => exact congrArg (Statement.function _ _) ih
  | conditional _ ih => exact congrArg Statement.conditional ih
  | forOf _ _ _ ih => exact congrArg (Statement.forOf _ _) ih
  | braces _ ih => exact ih
  | nil => rfl
  | cons _ _ ihs ihb => exact congrArg₂ List.cons ihs ihb
  | branch ht _ _ ihb iha =>
    have hbody : mapBody Binary64.collapse _ = _ := ihb
    have halternate : Alternate.mapNumbers Binary64.collapse _ = _ := iha
    rw [Category.mapNumbers, Branch.mapNumbers, ht.mapNumbers_collapse, hbody, halternate]
  | absent => rfl
  | elseBlock _ ih => exact congrArg Alternate.block ih
  | elseBranch _ ih => exact congrArg Alternate.branch ih

theorem Program.Expressible.mapNumbers_collapse {p : Program} (h : p.Expressible) :
    p.mapNumbers Binary64.collapse = p :=
  congrArg Program.mk h.body.mapNumbers_collapse

/-- The text of a program is read as its document, which is the one node of the program. It tells
the program apart from all others but those that differ in numbers without a text, and so from all
others that have a text. -/
theorem compactText_faithful :
    (∀ p : Program, Json.read p.compactText = some p.document ∧
      (∀ j, ProgramNode j p ↔ j = p.document) ∧ p.document.every documented = true) ∧
    (∀ p q : Program, p.compactText = q.compactText ↔
      p.mapNumbers Binary64.collapse = q.mapNumbers Binary64.collapse) ∧
    ∀ (a b : String) (p q : Program), parse a = .ok p → parse b = .ok q →
      (p.compactText = q.compactText ↔ p.equal q = true) := by
  have htext : ∀ p q : Program, p.compactText = q.compactText ↔
      p.mapNumbers Binary64.collapse = q.mapNumbers Binary64.collapse := fun p q =>
    (p.compactText_eq_iff q).trans (p.document_eq_iff q)
  refine ⟨fun p => ⟨read_compactText p, fun _ => programNode_iff, p.every_document⟩, htext, ?_⟩
  intro a b p q ha hb
  have hp := expressible_of_parse ha
  have hq := expressible_of_parse hb
  rw [htext, hp.mapNumbers_collapse, hq.mapNumbers_collapse, hp.equal_iff hq]

/-- A program whose one string is a delimiter of strings. -/
def quoteProgram (q : Quote) : Program := ⟨[.expression (.string (String.singleton q.character))]⟩

theorem compactText_quotes :
    parse (quoteProgram .double).print = .ok (quoteProgram .double) ∧
      parse (quoteProgram .single).print = .ok (quoteProgram .single) ∧
      (quoteProgram .double).compactText ≠ (quoteProgram .single).compactText := by
  have hparse : ∀ {q r : Quote}, r.character ∉ (String.singleton q.character).toList →
      parse (quoteProgram q).print = .ok (quoteProgram q) := by
    intro q r hr
    exact Program.Expressible.parse_print ⟨nofun, .cons (.expression (.string hr)) .nil⟩
  have hdouble := @hparse .double .single (by decide)
  have hsingle := @hparse .single .double (by decide)
  refine ⟨hdouble, hsingle, fun htext => ?_⟩
  have hequal := (compactText_faithful.2.2 _ _ _ _ hdouble hsingle).1 htext
  exact absurd hequal (by decide +kernel)

end Scriptlet
