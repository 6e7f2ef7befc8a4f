import Scriptlet.Proofs.Json.RoundTrip
import Scriptlet.Proofs.Syntax.Derivation
import Scriptlet.Tree.Document

/-!
# Scriptlet.Proofs.Json.Nodes

What the document of a tree consists of, and what it tells of the tree:

* `fieldTable`            — the members of each type of node after its type.
* `Json.documented`       — whether an object is a node with the members of its type, in order, and
                            a number one that has a text.
* `Program.mapNumbers f`  — a program with its numbers exchanged.
* `Binary64.collapse`     — infinity for every number that JSON has no text for.

All of a document is documented (`Program.every_document`). Two documents are the same exactly if
their programs are, up to numbers without a text (`Program.document_eq_iff`): the type of a node
tells the form of its tree, and its members tell the parts.
-/

namespace Scriptlet

/-! ## The documented nodes -/

/-- The types of nodes, each with the names of its parts. -/
def fieldTable : List (String × List String) := [
  ("Program", ["statements"]),
  ("NumericLiteral", ["value"]),
  ("StringLiteral", ["value"]),
  ("BooleanLiteral", ["value"]),
  ("Identifier", ["name"]),
  ("Block", ["statements"]),
  ("Function", ["name", "parameters", "body"]),
  ("BinaryOperator", ["kind", "symbol"]),
  ("BinaryExpression", ["operator", "left", "right"]),
  ("VariableDeclaration", ["id", "value"]),
  ("IfStatement", ["test", "consequent", "alternate"]),
  ("ForOfStatement", ["left", "right", "body"])]

namespace Json

def isNode : List (String × Json) → Bool
  | (key, .string type) :: parts =>
    key == "type" && fieldTable.lookup type == some (parts.map Prod.fst)
  | _ => false

/-- An object is a node, and a number has a text. -/
def documented : Json → Bool
  | object ms => isNode ms
  | j => j.hasText

theorem every_nodeDocument {type : String} {parts : List (String × Json)}
    (htype : fieldTable.lookup type = some (parts.map Prod.fst))
    (hparts : everyMember documented parts = true) :
    (nodeDocument type parts).every documented = true := by
  simp [nodeDocument, every, everyMember, documented, isNode, hasText, htype, hparts]

theorem every_ofNumber (x : Binary64) : (ofNumber x).every documented = true := by
  unfold ofNumber
  split
  · simpa [every, documented, hasText]
  · rfl

end Json

open Json

theorem every_identifierDocument (n : String) :
    (identifierDocument n).every documented = true := by
  exact every_nodeDocument rfl rfl

theorem everyItem_identifierDocuments (ns : List String) :
    everyItem documented (ns.map identifierDocument) = true := by
  induction ns with
  | nil => rfl
  | cons n ns ih => rw [List.map_cons, everyItem, every_identifierDocument, ih, Bool.true_and]

theorem every_listDocument {type : String} {js : List Json}
    (htype : fieldTable.lookup type = some ["statements"])
    (hjs : everyItem documented js = true) : (listDocument type js).every documented = true := by
  refine every_nodeDocument htype ?_
  simp [everyMember, every, documented, hasText, hjs]

theorem every_block {b : List Statement} (h : everyItem documented (bodyDocuments b) = true) :
    (listDocument "Block" (bodyDocuments b)).every documented = true :=
  every_listDocument rfl h

theorem Operator.every_document (o : Operator) : o.document.every documented = true := by
  exact every_nodeDocument rfl rfl

theorem Expression.every_document (e : Expression) : e.document.every documented = true := by
  induction e with
  | number x => exact every_nodeDocument rfl (by simp [everyMember, every_ofNumber])
  | string s => exact every_nodeDocument rfl rfl
  | boolean b => exact every_nodeDocument rfl rfl
  | identifier n => exact every_identifierDocument n
  | binary o l r ihl ihr =>
    exact every_nodeDocument rfl (by simp [everyMember, o.every_document, ihl, ihr])
  | declaration n v ih =>
    exact every_nodeDocument rfl (by simp [everyMember, every_identifierDocument, ih])

mutual

theorem Statement.every_document (s : Statement) : s.document.every documented = true := by
  cases s with
  | expression e => exact e.every_document
  | block b => exact every_block (every_bodyDocuments b)
  | function n ps b =>
    have hbody := every_block (every_bodyDocuments b)
    refine every_nodeDocument rfl ?_
    simp [everyMember, every, documented, hasText, everyItem_identifierDocuments, hbody]
  | conditional b => exact b.every_document
  | forOf c e b =>
    have hbody := every_block (every_bodyDocuments b)
    exact every_nodeDocument rfl (by simp [everyMember, every_identifierDocument, hbody])

theorem Branch.every_document (b : Branch) : b.document.every documented = true := by
  obtain ⟨t, c, a⟩ := b
  have hbody := every_block (every_bodyDocuments c)
  exact every_nodeDocument rfl (by simp [everyMember, t.every_document, hbody, a.every_document])

theorem Alternate.every_document (a : Alternate) : a.document.every documented = true := by
  cases a with
  | absent => rfl
  | block b => exact every_block (every_bodyDocuments b)
  | branch b => exact b.every_document

theorem every_bodyDocuments (b : List Statement) :
    everyItem documented (bodyDocuments b) = true := by
  cases b with
  | nil => rfl
  | cons s b =>
    rw [bodyDocuments, everyItem, s.every_document, every_bodyDocuments b, Bool.true_and]

end

theorem Program.every_document (p : Program) : p.document.every documented = true :=
  every_listDocument rfl (every_bodyDocuments p.statements)

theorem hasText_of_documented {j : Json} (h : j.documented = true) : j.hasText = true := by
  cases j with
  | object ms => rfl
  | _ => exact h

theorem Program.every_hasText (p : Program) : p.document.every hasText = true :=
  every_mono (fun _ => hasText_of_documented) p.document p.every_document

/-! ## Exchanging numbers -/

def Expression.mapNumbers (f : Binary64 → Binary64) : Expression → Expression
  | .number x => .number (f x)
  | .binary o l r => .binary o (l.mapNumbers f) (r.mapNumbers f)
  | .declaration n v => .declaration n (v.mapNumbers f)
  | e => e

mutual

def Statement.mapNumbers (f : Binary64 → Binary64) : Statement → Statement
  | .expression e => .expression (e.mapNumbers f)
  | .block b => .block (mapBody f b)
  | .function n ps b => .function n ps (mapBody f b)
  | .conditional b => .conditional (b.mapNumbers f)
  | .forOf c e b => .forOf c e (mapBody f b)

def Branch.mapNumbers (f : Binary64 → Binary64) : Branch → Branch
  | .mk t c a => .mk (t.mapNumbers f) (mapBody f c) (a.mapNumbers f)

def Alternate.mapNumbers (f : Binary64 → Binary64) : Alternate → Alternate
  | .absent => .absent
  | .block b => .block (mapBody f b)
  | .branch b => .branch (b.mapNumbers f)

def mapBody (f : Binary64 → Binary64) : List Statement → List Statement
  | [] => []
  | s :: b => s.mapNumbers f :: mapBody f b

end

def Program.mapNumbers (f : Binary64 → Binary64) (p : Program) : Program :=
  ⟨mapBody f p.statements⟩

/-- Infinity for all that is not finite. -/
def Binary64.collapse (x : Binary64) : Binary64 :=
  if x.isFinite then x else ofMagnitude infinite

theorem Binary64.isFinite_collapse (x : Binary64) : x.collapse.isFinite = x.isFinite := by
  have hinfinite : (ofMagnitude infinite).isFinite = false := by decide +kernel
  unfold collapse
  cases hx : x.isFinite with
  | true => exact hx
  | false => exact hinfinite

theorem ofNumber_collapse (x : Binary64) : Json.ofNumber x.collapse = Json.ofNumber x := by
  unfold Json.ofNumber
  rw [x.isFinite_collapse]
  cases hx : x.isFinite with
  | true => simp [Binary64.collapse, hx]
  | false => rfl

theorem collapse_eq_of_ofNumber_eq {x y : Binary64} (h : Json.ofNumber x = Json.ofNumber y) :
    x.collapse = y.collapse := by
  unfold Json.ofNumber at h
  unfold Binary64.collapse
  cases hx : x.isFinite <;> cases hy : y.isFinite <;> simp_all

theorem Expression.document_collapse (e : Expression) :
    (e.mapNumbers Binary64.collapse).document = e.document := by
  induction e with
  | number x => simp [mapNumbers, document, ofNumber_collapse]
  | binary o l r ihl ihr => simp [mapNumbers, document, ihl, ihr]
  | declaration n v ih => simp [mapNumbers, document, ih]
  | _ => rfl

mutual

theorem Statement.document_collapse (s : Statement) :
    (s.mapNumbers Binary64.collapse).document = s.document := by
  cases s with
  | expression e => simp [Statement.mapNumbers, Statement.document, e.document_collapse]
  | block b => simp [Statement.mapNumbers, Statement.document, bodyDocuments_collapse b]
  | function n ps b => simp [Statement.mapNumbers, Statement.document, bodyDocuments_collapse b]
  | conditional b => simp [Statement.mapNumbers, Statement.document, b.document_collapse]
  | forOf c e b => simp [Statement.mapNumbers, Statement.document, bodyDocuments_collapse b]

theorem Branch.document_collapse (b : Branch) :
    (b.mapNumbers Binary64.collapse).document = b.document := by
  obtain ⟨t, c, a⟩ := b
  simp [Branch.mapNumbers, Branch.document, t.document_collapse, bodyDocuments_collapse c,
    a.document_collapse]

theorem Alternate.document_collapse (a : Alternate) :
    (a.mapNumbers Binary64.collapse).document = a.document := by
  cases a with
  | absent => rfl
  | block b => simp [Alternate.mapNumbers, Alternate.document, bodyDocuments_collapse b]
  | branch b => simp [Alternate.mapNumbers, Alternate.document, b.document_collapse]

theorem bodyDocuments_collapse (b : List Statement) :
    bodyDocuments (mapBody Binary64.collapse b) = bodyDocuments b := by
  cases b with
  | nil => rfl
  | cons s b => simp [mapBody, bodyDocuments, s.document_collapse, bodyDocuments_collapse b]

end

/-! ## What documents tell -/

/-- The type of a node. -/
def Json.type? : Json → Option String
  | object ((_, string type) :: _) => some type
  | _ => none

/-- The form of a statement that has a document of a type. -/
def formOfType : Option String → Form
  | some "Block" => .block
  | some "Function" => .function
  | some "IfStatement" => .conditional
  | some "ForOfStatement" => .forOf
  | _ => .expression

theorem Operation.name_injective {o o' : Operation} (h : o.name = o'.name) : o = o' := by
  cases o <;> cases o' <;> first | rfl | exact absurd h (by decide)

theorem Operator.document_injective {o o' : Operator} (h : o.document = o'.document) :
    o = o' := by
  obtain ⟨p, s⟩ := o
  obtain ⟨p', s'⟩ := o'
  simp only [Operator.document, nodeDocument, Json.object.injEq, List.cons.injEq, Prod.mk.injEq,
    Json.string.injEq, true_and, and_true] at h
  rw [Operation.name_injective h.1, h.2]

theorem identifierDocument_injective {m n : String}
    (h : identifierDocument m = identifierDocument n) : m = n := by
  simpa [identifierDocument, nodeDocument] using h

theorem identifierDocuments_injective {ms ns : List String}
    (h : ms.map identifierDocument = ns.map identifierDocument) : ms = ns :=
  (List.map_inj_right fun _ _ => identifierDocument_injective).1 h

namespace Expression

theorem type?_document (e : Expression) : e.document.type? = some e.typeName := by
  cases e <;> rfl

theorem typeName_eq {e e' : Expression} (h : e.document = e'.document) :
    e.typeName = e'.typeName := by
  have htype := congrArg Json.type? h
  rw [e.type?_document, e'.type?_document] at htype
  exact Option.some.inj htype

theorem collapse_eq {e e' : Expression} (h : e.document = e'.document) :
    e.mapNumbers Binary64.collapse = e'.mapNumbers Binary64.collapse := by
  have hname := typeName_eq h
  induction e generalizing e' with
  | number x =>
    cases e' with
    | number y =>
      have hvalue : Json.ofNumber x = Json.ofNumber y := by
        simpa [document, nodeDocument] using h
      rw [mapNumbers, mapNumbers, collapse_eq_of_ofNumber_eq hvalue]
    | _ => simp [typeName] at hname
  | string s =>
    cases e' with
    | string t => simpa [document, nodeDocument, mapNumbers] using h
    | _ => simp [typeName] at hname
  | boolean b =>
    cases e' with
    | boolean c => simpa [document, nodeDocument, mapNumbers] using h
    | _ => simp [typeName] at hname
  | identifier m =>
    cases e' with
    | identifier n => rw [identifierDocument_injective h]
    | _ => simp [typeName] at hname
  | binary o l r ihl ihr =>
    cases e' with
    | binary o' l' r' =>
      obtain ⟨ho, hl, hr⟩ : o.document = o'.document ∧ l.document = l'.document ∧
          r.document = r'.document := by simpa [document, nodeDocument] using h
      rw [mapNumbers, mapNumbers, Operator.document_injective ho, ihl hl (typeName_eq hl),
        ihr hr (typeName_eq hr)]
    | _ => simp [typeName] at hname
  | declaration n v ih =>
    cases e' with
    | declaration n' v' =>
      obtain ⟨hn, hv⟩ : identifierDocument n = identifierDocument n' ∧
          v.document = v'.document := by simpa [document, nodeDocument] using h
      rw [mapNumbers, mapNumbers, identifierDocument_injective hn, ih hv (typeName_eq hv)]
    | _ => simp [typeName] at hname

end Expression

theorem Statement.formOfType_document (s : Statement) :
    formOfType s.document.type? = s.form := by
  cases s with
  | expression e =>
    rw [Statement.document, e.type?_document]
    cases e <;> rfl
  | conditional b => cases b; rfl
  | _ => rfl

theorem Statement.form_eq {s s' : Statement} (h : s.document = s'.document) :
    s.form = s'.form := by
  rw [← s.formOfType_document, h, s'.formOfType_document]

theorem Branch.document_ne_null (b : Branch) : b.document ≠ .null := by
  cases b
  nofun

theorem Branch.document_ne_listDocument (b : Branch) (js : List Json) :
    b.document ≠ listDocument "Block" js := by
  cases b
  simp [Branch.document, listDocument, nodeDocument]

theorem listDocument_injective {type : String} {js ks : List Json}
    (h : listDocument type js = listDocument type ks) : js = ks := by
  simpa [listDocument, nodeDocument] using h

mutual

theorem Statement.collapse_eq {s s' : Statement} (h : s.document = s'.document) :
    s.mapNumbers Binary64.collapse = s'.mapNumbers Binary64.collapse := by
  have hform := Statement.form_eq h
  cases s with
  | expression e =>
    cases s' with
    | expression e' => rw [Statement.mapNumbers, Statement.mapNumbers, Expression.collapse_eq h]
    | _ => cases hform
  | block b =>
    cases s' with
    | block b' =>
      rw [Statement.mapNumbers, Statement.mapNumbers, body_collapse_eq (listDocument_injective h)]
    | _ => cases hform
  | function n ps b =>
    cases s' with
    | function n' ps' b' =>
      obtain ⟨hn, hps, hb⟩ : n = n' ∧ ps.map identifierDocument = ps'.map identifierDocument ∧
          listDocument "Block" (bodyDocuments b) = listDocument "Block" (bodyDocuments b') := by
        simpa [Statement.document, nodeDocument] using h
      rw [Statement.mapNumbers, Statement.mapNumbers, hn, identifierDocuments_injective hps,
        body_collapse_eq (listDocument_injective hb)]
    | _ => cases hform
  | conditional b =>
    cases s' with
    | conditional b' => rw [Statement.mapNumbers, Statement.mapNumbers, Branch.collapse_eq h]
    | _ => cases hform
  | forOf c e b =>
    cases s' with
    | forOf c' e' b' =>
      obtain ⟨hc, he, hb⟩ : identifierDocument c = identifierDocument c' ∧
          identifierDocument e = identifierDocument e' ∧
          listDocument "Block" (bodyDocuments b) = listDocument "Block" (bodyDocuments b') := by
        simpa [Statement.document, nodeDocument] using h
      rw [Statement.mapNumbers, Statement.mapNumbers, identifierDocument_injective hc,
        identifierDocument_injective he, body_collapse_eq (listDocument_injective hb)]
    | _ => cases hform
termination_by structural s

theorem Branch.collapse_eq {b b' : Branch} (h : b.document = b'.document) :
    b.mapNumbers Binary64.collapse = b'.mapNumbers Binary64.collapse := by
  obtain ⟨t, c, a⟩ := b
  obtain ⟨t', c', a'⟩ := b'
  obtain ⟨ht, hc, ha⟩ : t.document = t'.document ∧
      listDocument "Block" (bodyDocuments c) = listDocument "Block" (bodyDocuments c') ∧
      a.document = a'.document := by simpa [Branch.document, nodeDocument] using h
  rw [Branch.mapNumbers, Branch.mapNumbers, Expression.collapse_eq ht,
    body_collapse_eq (listDocument_injective hc), Alternate.collapse_eq ha]
termination_by structural b

theorem Alternate.collapse_eq {a a' : Alternate} (h : a.document = a'.document) :
    a.mapNumbers Binary64.collapse = a'.mapNumbers Binary64.collapse := by
  cases a with
  | absent =>
    cases a' with
    | absent => rfl
    | block b' => cases h
    | branch b' => exact absurd h.symm b'.document_ne_null
  | block b =>
    cases a' with
    | block b' =>
      rw [Alternate.mapNumbers, Alternate.mapNumbers, body_collapse_eq (listDocument_injective h)]
    | absent => cases h
    | branch b' => exact absurd h.symm (b'.document_ne_listDocument _)
  | branch b =>
    cases a' with
    | branch b' => rw [Alternate.mapNumbers, Alternate.mapNumbers, Branch.collapse_eq h]
    | absent => exact absurd h b.document_ne_null
    | block b' => exact absurd h (b.document_ne_listDocument _)
termination_by structural a

theorem body_collapse_eq {b b' : List Statement} (h : bodyDocuments b = bodyDocuments b') :
    mapBody Binary64.collapse b = mapBody Binary64.collapse b' := by
  cases b with
  | nil =>
    cases b' with
    | nil => rfl
    | cons s' b' => cases h
  | cons s b =>
    cases b' with
    | nil => cases h
    | cons s' b' =>
      obtain ⟨hs, hb⟩ := List.cons.inj h
      rw [mapBody, mapBody, Statement.collapse_eq hs, body_collapse_eq hb]
termination_by structural b

end

theorem Program.document_eq_iff (p q : Program) : p.document = q.document ↔
    p.mapNumbers Binary64.collapse = q.mapNumbers Binary64.collapse := by
  constructor
  · intro h
    rw [mapNumbers, mapNumbers, body_collapse_eq (listDocument_injective h)]
  · intro h
    have hbody := congrArg bodyDocuments (Program.mk.inj h)
    rw [bodyDocuments_collapse, bodyDocuments_collapse] at hbody
    rw [document, document, hbody]

end Scriptlet
