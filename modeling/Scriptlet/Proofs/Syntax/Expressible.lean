import Scriptlet.Proofs.Number.Rounding
import Scriptlet.Proofs.Scan.Delimited
import Scriptlet.Proofs.Syntax.Content
import Scriptlet.Tree.Equality

/-!
# Scriptlet.Proofs.Syntax.Expressible

Trees that some text has:

* `Expression.Expressible`  — numbers are whole, a string lacks one of the delimiters, names are not
                              taken for reserved words, and a chain nests to the right.
* `Expressible c`           — the same for statements and their parts.
* `Content.token`           — a token for what a tree keeps of one.

The trees of printable tokens are expressible (`DerivesPhrase.expressible`). An expressible tree is
derived from tokens for its contents (`Expressible.derives`), so it is known by its contents
(`Expressible.eq_of_bodyContents`). On expressible trees equality is that of trees, since none of
them holds a number that differs from itself.
-/

namespace Scriptlet

def IsName (n : String) : Prop := Kind.identifier.Printable n.toList

namespace Expression

/-- Whether an expression is a literal or a name. -/
def isLeaf : Expression → Bool
  | binary .. | declaration .. => false
  | _ => true

inductive Expressible : Expression → Prop where
  | number {x : Binary64} : x.Whole → Expressible (.number x)
  | string {s : String} {q : Quote} : q.character ∉ s.toList → Expressible (.string s)
  | boolean (b : Bool) : Expressible (.boolean b)
  | identifier {n : String} : IsName n → Expressible (.identifier n)
  | binary {o : Operator} {l r : Expression} : o.symbol = o.operation.symbol → l.isLeaf = true →
      Expressible l → Expressible r → Expressible (.binary o l r)
  | declaration {n : String} {v : Expression} : IsName n → Expressible v →
      Expressible (.declaration n v)

end Expression

inductive Expressible : (c : Category) → c.Tree → Prop where
  | expression {e : Expression} : e.Expressible → Expressible .statement (Statement.expression e)
  | block {b : List Statement} : Expressible .block b → Expressible .statement (Statement.block b)
  | function {n : String} {ps : List String} {b : List Statement} : IsName n →
      (∀ p ∈ ps, IsName p) → Expressible .block b →
      Expressible .statement (Statement.function n ps b)
  | conditional {b : Branch} : Expressible .branch b →
      Expressible .statement (Statement.conditional b)
  | forOf {c e : String} {b : List Statement} : IsName c → IsName e → Expressible .block b →
      Expressible .statement (Statement.forOf c e b)
  | braces {b : List Statement} : Expressible .body b → Expressible .block b
  | nil : Expressible .body ([] : List Statement)
  | cons {s : Statement} {b : List Statement} : Expressible .statement s → Expressible .body b →
      Expressible .body (s :: b)
  | branch {t : Expression} {b : List Statement} {a : Alternate} : t.Expressible →
      Expressible .block b → Expressible .alternate a → Expressible .branch (Branch.mk t b a)
  | absent : Expressible .alternate Alternate.absent
  | elseBlock {b : List Statement} : Expressible .block b →
      Expressible .alternate (Alternate.block b)
  | elseBranch {b : Branch} : Expressible .branch b → Expressible .alternate (Alternate.branch b)

def Token.Printable (t : Token) : Prop := t.kind.Printable t.lexeme.toList

/-! ## Trees of printable tokens -/

theorem Token.Printable.isName {t : Token} (h : t.Printable) (hk : t.kind = .identifier) :
    IsName t.lexeme := by
  rwa [Token.Printable, hk] at h

theorem Leaf.expressible {t : Token} {e : Expression} (h : Leaf t e) (ht : t.Printable) :
    e.isLeaf = true ∧ e.Expressible := by
  cases h with
  | number _ hx => exact ⟨rfl, .number (Binary64.whole_of_read hx)⟩
  | @string inner hk hinner =>
    obtain ⟨hlex, -⟩ := ht
    rw [hk] at hlex
    obtain ⟨q, cs, hq, hcs⟩ := hlex
    have hcs' := Quote.unquote?_eq_some_iff.2 ⟨q, hcs⟩
    obtain rfl : inner = cs := Option.some.inj (hinner.symm.trans hcs')
    exact ⟨rfl, .string (q := q) (by simpa using hq)⟩
  | boolean _ _ => exact ⟨rfl, .boolean _⟩
  | identifier hk => exact ⟨rfl, .identifier (ht.isName hk)⟩

theorem DerivesExpression.expressible {ts : List Token} {e : Expression}
    (h : DerivesExpression ts e) (hts : ∀ t ∈ ts, t.Printable) : e.Expressible := by
  induction h with
  | leaf ht => exact (ht.expressible (hts _ (by simp))).2
  | binary ht _ hp _ ih =>
    obtain ⟨hleaf, hl⟩ := ht.expressible (hts _ (by simp))
    have hr := ih fun t h => hts t (by simp [h])
    exact .binary (Operation.ofSymbol?_eq_some_iff.1 hp) hleaf hl hr
  | declaration _ hn _ _ ih =>
    exact .declaration ((hts _ (by simp)).isName hn) (ih fun t h => hts t (by simp [h]))

theorem DerivesFurther.isName {ts : List Token} {ns : List String} (h : DerivesFurther ts ns)
    (hts : ∀ t ∈ ts, t.Printable) : ∀ n ∈ ns, IsName n := by
  induction h with
  | close _ => simp
  | trailing _ _ => simp
  | more _ hn _ ih =>
    rintro m (_ | ⟨_, hm⟩)
    · exact (hts _ (by simp)).isName hn
    · exact ih (fun t h => hts t (by simp [h])) m hm

theorem DerivesParameters.isName {ts : List Token} {ns : List String}
    (h : DerivesParameters ts ns) (hts : ∀ t ∈ ts, t.Printable) : ∀ n ∈ ns, IsName n := by
  cases h with
  | none _ _ => simp
  | some _ hn hr =>
    rintro m (_ | ⟨_, hm⟩)
    · exact (hts _ (by simp)).isName hn
    · exact hr.isName (fun t h => hts t (by simp [h])) m hm

theorem DerivesPhrase.expressible {c : Category} {ts : List Token} {x : c.Tree}
    (h : DerivesPhrase c ts x) : (∀ t ∈ ts, t.Printable) → Expressible c x := by
  induction h with
  | expression he _ =>
    intro hts
    exact .expression (he.expressible fun t h => hts t (by simp [h]))
  | block _ ih =>
    intro hts
    exact .block (ih hts)
  | function _ hn hp _ ih =>
    intro hts
    exact .function ((hts _ (by simp)).isName hn) (hp.isName fun t h => hts t (by simp [h]))
      (ih fun t h => hts t (by simp [h]))
  | conditional _ ih =>
    intro hts
    exact .conditional (ih hts)
  | forOf _ _ _ hx _ hy _ _ ih =>
    intro hts
    exact .forOf ((hts _ (by simp)).isName hy) ((hts _ (by simp)).isName hx)
      (ih fun t h => hts t (by simp [h]))
  | braces _ _ _ ih =>
    intro hts
    exact .braces (ih fun t h => hts t (by simp [h]))
  | nil =>
    intro _
    exact .nil
  | cons _ _ ihs ihb =>
    intro hts
    exact .cons (ihs fun t h => hts t (by simp [h])) (ihb fun t h => hts t (by simp [h]))
  | branch _ _ he _ _ _ ihb iha =>
    intro hts
    exact .branch (he.expressible fun t h => hts t (by simp [h]))
      (ihb fun t h => hts t (by simp [h])) (iha fun t h => hts t (by simp [h]))
  | absent =>
    intro _
    exact .absent
  | elseBlock _ _ ih =>
    intro hts
    exact .elseBlock (ih fun t h => hts t (by simp [h]))
  | elseBranch _ _ ih =>
    intro hts
    exact .elseBranch (ih fun t h => hts t (by simp [h]))

/-! ## Tokens for contents -/

/-- The first delimiter that does not occur in a text. -/
def quoteFor (cs : List Char) : Quote :=
  (Quote.all.find? fun q => q.character ∉ cs).getD .double

theorem quoteFor_not_mem {cs : List Char} {q : Quote} (h : q.character ∉ cs) :
    (quoteFor cs).character ∉ cs := by
  have hq : q ∈ Quote.all := by cases q <;> decide
  cases hfind : Quote.all.find? fun q => q.character ∉ cs with
  | none => exact absurd h (by simpa using List.find?_eq_none.1 hfind q hq)
  | some r =>
    rw [quoteFor, hfind]
    simpa using List.find?_some hfind

def Quote.enclose (q : Quote) (cs : List Char) : List Char :=
  q.character :: cs ++ [q.character]

def Content.token : Content → Token
  | number x => ⟨.number, String.ofList (natText (Binary64.Whole.preimage x)), .start⟩
  | string s => ⟨.string, String.ofList ((quoteFor s.toList).enclose s.toList), .start⟩
  | word k l => ⟨k, l, .start⟩

theorem Content.printable_mark {k : Kind} (h : k.isMark = true) : (mark k).token.Printable := by
  have hmarks : ∀ k ∈ Kind.all, k.isMark = true → k.spelled = true ∧
      k.spellings = [k.spelling?.getD ""] ∧ k ≠ .identifier := by decide
  obtain ⟨hspelled, hspellings, hne⟩ := hmarks k (Kind.mem_all k) h
  refine ⟨(Kind.lexeme_iff_of_spelled hspelled).2 ⟨_, ?_, rfl⟩, fun heq => absurd heq hne⟩
  rw [hspellings]
  exact List.mem_singleton_self _

theorem IsName.printable {n : String} (h : IsName n) : (Content.name n).token.Printable := h

namespace Expression

theorem Expressible.leaf {e : Expression} (h : e.Expressible) (hleaf : e.isLeaf = true) :
    ∃ c : Content, e.contents = [c] ∧ Leaf c.token e ∧ c.token.Printable := by
  cases h with
  | @number x hx =>
    refine ⟨.number x, rfl, .number rfl ?_, ⟨?_, nofun⟩⟩
    · rw [Content.token, String.toList_ofList, read_natText, hx.ofNat_preimage]
    · rw [Content.token, String.toList_ofList]
      exact ⟨natText_ne_nil _, isDigit_natText _⟩
  | @string s q hq =>
    have hinner : Quote.unquote? ((quoteFor s.toList).enclose s.toList) = some s.toList :=
      Quote.unquote?_eq_some_iff.2 ⟨_, rfl⟩
    refine ⟨.string s, rfl, ?_, ⟨?_, nofun⟩⟩
    · have hleaf : Leaf (Content.string s).token (.string (String.ofList s.toList)) :=
        .string rfl (by rw [Content.token, String.toList_ofList, hinner])
      rwa [String.ofList_toList] at hleaf
    · rw [Content.token, String.toList_ofList]
      exact ⟨_, _, quoteFor_not_mem hq, rfl⟩
  | boolean b =>
    refine ⟨.word .boolean (toString b), rfl, .boolean rfl rfl, ⟨⟨toString b, ?_, rfl⟩, nofun⟩⟩
    cases b <;> decide
  | @identifier n hn => exact ⟨.name n, rfl, .identifier rfl, hn.printable⟩
  | binary => cases hleaf
  | declaration => cases hleaf

theorem Expressible.derives {e : Expression} (h : e.Expressible) :
    DerivesExpression (e.contents.map Content.token) e := by
  have leaf : ∀ {e : Expression}, e.Expressible → e.isLeaf = true →
      DerivesExpression (e.contents.map Content.token) e := by
    intro e he hleaf
    obtain ⟨c, hc, ht, -⟩ := he.leaf hleaf
    rw [hc]
    exact .leaf ht
  induction h with
  | number hx => exact leaf (.number hx) rfl
  | string hq => exact leaf (.string hq) rfl
  | boolean b => exact leaf (.boolean b) rfl
  | identifier hn => exact leaf (.identifier hn) rfl
  | @binary o l r ho hleaf hl _ _ ihr =>
    obtain ⟨c, hc, ht, -⟩ := hl.leaf hleaf
    rw [contents, hc]
    exact .binary ht rfl (Operation.ofSymbol?_eq_some_iff.2 ho) ihr
  | declaration hn _ ih => exact .declaration rfl rfl rfl ih

theorem Expressible.printable {e : Expression} (h : e.Expressible) :
    ∀ c ∈ e.contents, c.token.Printable := by
  have leaf : ∀ {e : Expression}, e.Expressible → e.isLeaf = true →
      ∀ c ∈ e.contents, c.token.Printable := by
    intro e he hleaf c' hc'
    obtain ⟨c, hc, -, hprint⟩ := he.leaf hleaf
    rw [hc, List.mem_singleton] at hc'
    exact hc' ▸ hprint
  induction h with
  | number hx => exact leaf (.number hx) rfl
  | string hq => exact leaf (.string hq) rfl
  | boolean b => exact leaf (.boolean b) rfl
  | identifier hn => exact leaf (.identifier hn) rfl
  | @binary o l r ho hleaf hl _ _ ihr =>
    have hsymbol : (Content.word .operator o.symbol).token.Printable := by
      refine ⟨⟨o.symbol, ?_, rfl⟩, nofun⟩
      rw [ho]
      cases o.operation <;> decide
    rw [contents, List.forall_mem_append, List.forall_mem_cons]
    exact ⟨leaf hl hleaf, hsymbol, ihr⟩
  | declaration hn _ ih =>
    rw [contents, List.forall_mem_cons, List.forall_mem_cons, List.forall_mem_cons]
    exact ⟨Content.printable_mark rfl, hn.printable, Content.printable_mark rfl, ih⟩

end Expression

theorem derivesFurther_contents (ns : List String) :
    DerivesFurther ((furtherContents ns).map Content.token) ns := by
  induction ns with
  | nil => exact .close rfl
  | cons n ns ih => exact .more rfl rfl ih

theorem derivesParameters_contents (ns : List String) :
    DerivesParameters ((parameterContents ns).map Content.token) ns := by
  cases ns with
  | nil => exact .none rfl rfl
  | cons n ns => exact .some rfl rfl (derivesFurther_contents ns)

theorem printable_furtherContents {ns : List String} (h : ∀ n ∈ ns, IsName n) :
    ∀ c ∈ furtherContents ns, c.token.Printable := by
  induction ns with
  | nil => simpa [furtherContents] using Content.printable_mark rfl
  | cons n ns ih =>
    rw [List.forall_mem_cons] at h
    rw [furtherContents, List.forall_mem_cons, List.forall_mem_cons]
    exact ⟨Content.printable_mark rfl, h.1.printable, ih h.2⟩

theorem printable_parameterContents {ns : List String} (h : ∀ n ∈ ns, IsName n) :
    ∀ c ∈ parameterContents ns, c.token.Printable := by
  cases ns with
  | nil => simpa [parameterContents] using ⟨Content.printable_mark rfl, Content.printable_mark rfl⟩
  | cons n ns =>
    rw [List.forall_mem_cons] at h
    rw [parameterContents, List.forall_mem_cons, List.forall_mem_cons]
    exact ⟨Content.printable_mark rfl, h.1.printable, printable_furtherContents h.2⟩

namespace Expressible

variable {c : Category} {x : c.Tree}

theorem derives (h : Expressible c x) : DerivesPhrase c ((c.contents x).map Content.token) x := by
  induction h with
  | expression he =>
    have hderives := DerivesPhrase.expression (s := (Content.mark .semicolon).token) he.derives rfl
    simpa [Category.contents, Statement.contents] using hderives
  | block _ ih => exact .block ih
  | @function n ps b _ _ _ ih =>
    have hderives : DerivesPhrase .statement _ (Statement.function n ps b) :=
      .function (f := (Content.mark .functionWord).token) (n := (Content.name n).token) rfl rfl
        (derivesParameters_contents ps) ih
    simpa [Category.contents, Statement.contents] using hderives
  | conditional _ ih => exact .conditional ih
  | forOf _ _ _ ih => exact .forOf rfl rfl rfl rfl rfl rfl rfl ih
  | braces _ ih =>
    have hderives := DerivesPhrase.braces (o := (Content.mark .openBrace).token)
      (c := (Content.mark .closeBrace).token) rfl ih rfl
    simpa [Category.contents, inBraces] using hderives
  | nil => exact .nil
  | cons _ _ ihs ihb =>
    have hderives := DerivesPhrase.cons ihs ihb
    simpa [Category.contents, bodyContents] using hderives
  | branch ht _ _ ihb iha =>
    have hderives := DerivesPhrase.branch (i := (Content.mark .ifWord).token)
      (o := (Content.mark .openParen).token) (c := (Content.mark .closeParen).token) rfl rfl
      ht.derives rfl ihb iha
    simpa [Category.contents, Branch.contents] using hderives
  | absent => exact .absent
  | elseBlock _ ih => exact .elseBlock rfl ih
  | elseBranch _ ih => exact .elseBranch rfl ih

theorem printable (h : Expressible c x) : ∀ y ∈ c.contents x, y.token.Printable := by
  have mark : ∀ {k : Kind}, k.isMark = true → (Content.mark k).token.Printable :=
    Content.printable_mark
  induction h with
  | expression he =>
    simp only [Category.contents, Statement.contents, List.forall_mem_append, List.forall_mem_cons]
    exact ⟨he.printable, mark rfl, List.forall_mem_nil _⟩
  | block _ ih => exact ih
  | function hn hps _ ih =>
    simp only [Category.contents, Statement.contents, List.forall_mem_append, List.forall_mem_cons]
    exact ⟨⟨mark rfl, hn.printable, printable_parameterContents hps⟩, ih⟩
  | conditional _ ih => exact ih
  | forOf hc he _ ih =>
    simp only [Category.contents, Statement.contents, List.forall_mem_cons]
    exact ⟨mark rfl, mark rfl, mark rfl, he.printable, mark rfl, hc.printable, mark rfl, ih⟩
  | braces _ ih =>
    simp only [Category.contents, inBraces, List.forall_mem_append, List.forall_mem_cons]
    exact ⟨⟨mark rfl, ih⟩, mark rfl, List.forall_mem_nil _⟩
  | nil => exact List.forall_mem_nil _
  | cons _ _ ihs ihb =>
    simp only [Category.contents, bodyContents, List.forall_mem_append]
    exact ⟨ihs, ihb⟩
  | branch ht _ _ ihb iha =>
    simp only [Category.contents, Branch.contents, List.forall_mem_append, List.forall_mem_cons]
    exact ⟨⟨⟨mark rfl, mark rfl, ht.printable⟩, mark rfl, ihb⟩, iha⟩
  | absent => exact List.forall_mem_nil _
  | elseBlock _ ih =>
    simp only [Category.contents, Alternate.contents, List.forall_mem_cons]
    exact ⟨mark rfl, ih⟩
  | elseBranch _ ih =>
    simp only [Category.contents, Alternate.contents, List.forall_mem_cons]
    exact ⟨mark rfl, ih⟩

/-- An expressible body is known by its contents. -/
theorem eq_of_bodyContents {b b' : List Statement} (h : Expressible .body b)
    (h' : Expressible .body b') (heq : bodyContents b = bodyContents b') : b = b' := by
  have hend : Category.body.Ends (nextKind []) := .inl rfl
  have htokens : (Category.body.contents b).map Content.token ++ [] =
      (Category.body.contents b').map Content.token ++ [] :=
    congrArg (fun cs : List Content => cs.map Content.token ++ []) heq
  exact (h.derives.unique h'.derives htokens hend hend).2

end Expressible

/-! ## Equality -/

theorem Expression.Expressible.equal_iff {e e' : Expression} (h : e.Expressible)
    (h' : e'.Expressible) : e.equal e' = true ↔ e = e' := by
  induction h generalizing e' with
  | number hx =>
    cases h' with
    | number hy => simp [Expression.equal, hx.equal_iff hy]
    | _ => simp [Expression.equal]
  | string _ => cases h' <;> simp [Expression.equal]
  | boolean _ => cases h' <;> simp [Expression.equal]
  | identifier _ => cases h' <;> simp [Expression.equal]
  | binary _ _ _ _ ihl ihr =>
    cases h' with
    | binary _ _ hl' hr' => simp [Expression.equal, ihl hl', ihr hr']
    | _ => simp [Expression.equal]
  | declaration _ _ ih =>
    cases h' with
    | declaration _ hv' => simp [Expression.equal, ih hv']
    | _ => simp [Expression.equal]

def Category.equal : (c : Category) → c.Tree → c.Tree → Bool
  | statement, x, y => Statement.equal x y
  | block, x, y | body, x, y => equalBodies x y
  | branch, x, y => Branch.equal x y
  | alternate, x, y => Alternate.equal x y

theorem Expressible.equal_iff {c : Category} {x : c.Tree} (h : Expressible c x) :
    ∀ {y : c.Tree}, Expressible c y → (c.equal x y = true ↔ x = y) := by
  induction h with
  | expression he =>
    intro y hy
    cases hy with
    | expression he' => simp [Category.equal, Statement.equal, he.equal_iff he']
    | _ => simp [Category.equal, Statement.equal]
  | block _ ih =>
    intro y hy
    cases hy with
    | block hb' => simpa [Category.equal, Statement.equal] using ih hb'
    | _ => simp [Category.equal, Statement.equal]
  | function _ _ _ ih =>
    intro y hy
    cases hy with
    | function _ _ hb' =>
      have hb := ih hb'
      simp only [Category.equal] at hb
      simp [Category.equal, Statement.equal, hb]
    | _ => simp [Category.equal, Statement.equal]
  | conditional _ ih =>
    intro y hy
    cases hy with
    | conditional hb' => simpa [Category.equal, Statement.equal] using ih hb'
    | _ => simp [Category.equal, Statement.equal]
  | forOf _ _ _ ih =>
    intro y hy
    cases hy with
    | forOf _ _ hb' =>
      have hb := ih hb'
      simp only [Category.equal] at hb
      simp [Category.equal, Statement.equal, hb]
    | _ => simp [Category.equal, Statement.equal]
  | braces _ ih =>
    intro y hy
    cases hy with
    | braces hb' => exact ih hb'
  | nil =>
    intro y hy
    cases hy <;> simp [Category.equal, equalBodies]
  | cons _ _ ihs ihb =>
    intro y hy
    cases hy with
    | nil => simp [Category.equal, equalBodies]
    | cons hs' hb' =>
      have hs := ihs hs'
      have hb := ihb hb'
      simp only [Category.equal] at hs hb
      simp [Category.equal, equalBodies, hs, hb]
  | branch ht _ _ ihb iha =>
    intro y hy
    cases hy with
    | branch ht' hb' ha' =>
      have hb := ihb hb'
      have ha := iha ha'
      simp only [Category.equal] at hb ha
      simp [Category.equal, Branch.equal, ht.equal_iff ht', hb, ha]
  | absent =>
    intro y hy
    cases hy <;> simp [Category.equal, Alternate.equal]
  | elseBlock _ ih =>
    intro y hy
    cases hy with
    | elseBlock hb' => simpa [Category.equal, Alternate.equal] using ih hb'
    | _ => simp [Category.equal, Alternate.equal]
  | elseBranch _ ih =>
    intro y hy
    cases hy with
    | elseBranch hb' => simpa [Category.equal, Alternate.equal] using ih hb'
    | _ => simp [Category.equal, Alternate.equal]

end Scriptlet
