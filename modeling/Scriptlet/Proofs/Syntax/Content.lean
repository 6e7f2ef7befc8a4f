import Scriptlet.Proofs.Scan.Lexeme
import Scriptlet.Proofs.Syntax.Unambiguous

/-!
# Scriptlet.Proofs.Syntax.Content

What of its tokens a tree keeps:

* `Content`            — a number by its value, a string by the text between its delimiters, and
                         any other token as it is written.
* `contents ts`        — the contents of some tokens, without a comma before a closing parenthesis.
* `Category.contents`  — the contents that the tokens of a tree have.

`DerivesPhrase.contents_append` says that the tokens of a tree have the contents of the tree,
whatever tokens come after them.
-/

namespace Scriptlet

inductive Content where
  | number (value : Binary64)
  | string (text : String)
  | word (kind : Kind) (lexeme : String)
  deriving DecidableEq, Repr

namespace Content

/-- A token whose kind has one text only. -/
def mark (k : Kind) : Content := .word k (k.spelling?.getD "")

def name (n : String) : Content := .word .identifier n

end Content

/-- A number without a value and a string without an inside do not occur among scanned tokens. -/
def Token.content (t : Token) : Content :=
  match t.kind with
  | .number => ((Binary64.read t.lexeme.toList).map .number).getD (.word .number t.lexeme)
  | .string =>
    ((Quote.unquote? t.lexeme.toList).map fun cs => .string (String.ofList cs)).getD
      (.word .string t.lexeme)
  | k => .word k t.lexeme

def contents : List Token → List Content
  | [] => []
  | t :: ts =>
    if t.kind = .comma ∧ nextKind ts = some .closeParen then contents ts
    else t.content :: contents ts

/-! ## Contents of trees -/

def Expression.contents : Expression → List Content
  | .number x => [.number x]
  | .string s => [.string s]
  | .boolean b => [.word .boolean (toString b)]
  | .identifier n => [.name n]
  | .binary o l r => l.contents ++ .word .operator o.symbol :: r.contents
  | .declaration n v => .mark .letWord :: .name n :: .mark .assign :: v.contents

def furtherContents : List String → List Content
  | [] => [.mark .closeParen]
  | n :: ns => .mark .comma :: .name n :: furtherContents ns

def parameterContents : List String → List Content
  | [] => [.mark .openParen, .mark .closeParen]
  | n :: ns => .mark .openParen :: .name n :: furtherContents ns

def inBraces (cs : List Content) : List Content :=
  .mark .openBrace :: cs ++ [.mark .closeBrace]

mutual

def Statement.contents : Statement → List Content
  | .expression e => e.contents ++ [.mark .semicolon]
  | .block b => inBraces (bodyContents b)
  | .function n ps b =>
    .mark .functionWord :: .name n :: parameterContents ps ++ inBraces (bodyContents b)
  | .conditional b => b.contents
  | .forOf c e b =>
    .mark .forWord :: .mark .openParen :: .mark .letWord :: .name e :: .mark .ofWord :: .name c ::
      .mark .closeParen :: inBraces (bodyContents b)

def Branch.contents : Branch → List Content
  | .mk t c a =>
    .mark .ifWord :: .mark .openParen :: t.contents ++ .mark .closeParen ::
      inBraces (bodyContents c) ++ a.contents

def Alternate.contents : Alternate → List Content
  | .absent => []
  | .block b => .mark .elseWord :: inBraces (bodyContents b)
  | .branch b => .mark .elseWord :: b.contents

def bodyContents : List Statement → List Content
  | [] => []
  | s :: b => s.contents ++ bodyContents b

end

def Category.contents : (c : Category) → c.Tree → List Content
  | statement, s => Statement.contents s
  | block, b => inBraces (bodyContents b)
  | body, b => bodyContents b
  | branch, b => Branch.contents b
  | alternate, a => Alternate.contents a

/-! ## Tokens and their contents -/

theorem contents_cons {t : Token} {ts : List Token}
    (h : t.kind ≠ .comma ∨ nextKind ts ≠ some .closeParen) :
    contents (t :: ts) = t.content :: contents ts := by
  rw [contents, if_neg]
  rintro ⟨hk, hnext⟩
  exact h.elim (· hk) (· hnext)

theorem content_of_word {t : Token} {k : Kind} (hk : t.kind = k) (hnumber : k ≠ .number)
    (hstring : k ≠ .string) : t.content = .word k t.lexeme := by
  subst hk
  unfold Token.content
  split
  · exact absurd ‹_› hnumber
  · exact absurd ‹_› hstring
  · rfl

theorem contents_name {t : Token} (hk : t.kind = .identifier) (ts : List Token) :
    contents (t :: ts) = .name t.lexeme :: contents ts := by
  rw [contents_cons (.inl (by simp [hk])), content_of_word hk (by decide) (by decide), Content.name]

/-- Whether the tokens of a kind have one text only. -/
def Kind.isMark (k : Kind) : Bool := k.spelling?.isSome

theorem content_of_mark {t : Token} {k : Kind} (hk : t.kind = k) (hmark : k.isMark = true)
    (hlex : t.kind.Lexeme t.lexeme.toList) : t.content = .mark k := by
  have hmarks : ∀ k ∈ Kind.all, k.isMark = true → k.spelled = true ∧ k ≠ .number ∧ k ≠ .string ∧
      k.spellings = [k.spelling?.getD ""] := by decide
  obtain ⟨hspelled, hnumber, hstring, hspellings⟩ := hmarks k (Kind.mem_all k) hmark
  rw [hk] at hlex
  obtain ⟨v, hv, hl⟩ := (Kind.lexeme_iff_of_spelled hspelled).1 hlex
  obtain rfl : t.lexeme = v := String.toList_inj.1 hl
  rw [hspellings, List.mem_singleton] at hv
  rw [content_of_word hk hnumber hstring, Content.mark, hv]

theorem contents_mark {t : Token} {k : Kind} (hk : t.kind = k) (hmark : k.isMark = true)
    (hcomma : k ≠ .comma) (hlex : t.kind.Lexeme t.lexeme.toList) (ts : List Token) :
    contents (t :: ts) = .mark k :: contents ts := by
  rw [contents_cons (.inl (by rwa [hk])), content_of_mark hk hmark hlex]

theorem Leaf.contents {t : Token} {e : Expression} (h : Leaf t e) (ts : List Token) :
    Scriptlet.contents (t :: ts) = e.contents ++ Scriptlet.contents ts := by
  cases h with
  | number hk hx =>
    rw [contents_cons (.inl (by simp [hk])), Token.content, hk]
    simp [hx, Expression.contents]
  | string hk hinner =>
    rw [contents_cons (.inl (by simp [hk])), Token.content, hk]
    simp [hinner, Expression.contents]
  | boolean hk hl =>
    rw [contents_cons (.inl (by simp [hk])), content_of_word hk (by decide) (by decide), hl]
    rfl
  | identifier hk =>
    rw [contents_name hk]
    rfl

/-- All tokens have texts of their kinds. -/
def Lexemes (ts : List Token) : Prop := ∀ t ∈ ts, t.kind.Lexeme t.lexeme.toList

theorem lexemes_cons {t : Token} {ts : List Token} :
    Lexemes (t :: ts) ↔ t.kind.Lexeme t.lexeme.toList ∧ Lexemes ts := by
  simp [Lexemes]

theorem lexemes_append {ts us : List Token} : Lexemes (ts ++ us) ↔ Lexemes ts ∧ Lexemes us := by
  simp [Lexemes, or_imp, forall_and]

/-! ## The contents of what is derived -/

theorem DerivesExpression.contents_append {ts : List Token} {e : Expression}
    (h : DerivesExpression ts e) (hlex : Lexemes ts) (rest : List Token) :
    contents (ts ++ rest) = e.contents ++ contents rest := by
  induction h with
  | leaf ht => exact ht.contents rest
  | binary ht ho _ _ ih =>
    obtain ⟨-, -, hr⟩ := by simpa only [lexemes_cons] using hlex
    rw [List.cons_append, List.cons_append, ht.contents, contents_cons (.inl (by simp [ho])),
      content_of_word ho (by decide) (by decide), ih hr]
    simp [Expression.contents]
  | declaration hd hn ha _ ih =>
    obtain ⟨hd', -, ha', hv⟩ := by simpa only [lexemes_cons] using hlex
    rw [List.cons_append, List.cons_append, List.cons_append,
      contents_mark hd rfl (by decide) hd', contents_name hn, contents_mark ha rfl (by decide) ha',
      ih hv]
    rfl

theorem DerivesFurther.contents_append {ts : List Token} {ns : List String}
    (h : DerivesFurther ts ns) (hlex : Lexemes ts) (rest : List Token) :
    contents (ts ++ rest) = furtherContents ns ++ contents rest := by
  induction h with
  | close hc =>
    obtain ⟨hc', -⟩ := lexemes_cons.1 hlex
    exact contents_mark hc rfl (by decide) hc' rest
  | trailing hm hc =>
    obtain ⟨-, hc', -⟩ := by simpa only [lexemes_cons] using hlex
    rw [List.cons_append, contents, if_pos ⟨hm, congrArg some hc⟩]
    exact contents_mark hc rfl (by decide) hc' rest
  | more hm hn _ ih =>
    obtain ⟨hm', -, hr⟩ := by simpa only [lexemes_cons] using hlex
    rw [List.cons_append, List.cons_append, contents_cons (.inr (nextKind_ne hn (by decide) _)),
      content_of_mark hm rfl hm', contents_name hn, ih hr]
    rfl

theorem DerivesParameters.contents_append {ts : List Token} {ns : List String}
    (h : DerivesParameters ts ns) (hlex : Lexemes ts) (rest : List Token) :
    contents (ts ++ rest) = parameterContents ns ++ contents rest := by
  cases h with
  | none ho hc =>
    obtain ⟨ho', hc', -⟩ := by simpa only [lexemes_cons] using hlex
    rw [List.cons_append, contents_mark ho rfl (by decide) ho']
    exact congrArg _ (contents_mark hc rfl (by decide) hc' rest)
  | some ho hn hr =>
    obtain ⟨ho', -, hr'⟩ := by simpa only [lexemes_cons] using hlex
    rw [List.cons_append, List.cons_append, contents_mark ho rfl (by decide) ho', contents_name hn,
      hr.contents_append hr']
    rfl

theorem DerivesPhrase.contents_append {c : Category} {ts : List Token} {x : c.Tree}
    (h : DerivesPhrase c ts x) : Lexemes ts → ∀ rest : List Token,
    Scriptlet.contents (ts ++ rest) = c.contents x ++ Scriptlet.contents rest := by
  induction h with
  | expression he hs =>
    intro hlex rest
    obtain ⟨he', hs'⟩ := lexemes_append.1 hlex
    obtain ⟨hs', -⟩ := lexemes_cons.1 hs'
    rw [List.append_assoc, he.contents_append he', List.singleton_append,
      contents_mark hs rfl (by decide) hs']
    simp [Category.contents, Statement.contents]
  | block hb ih =>
    intro hlex rest
    rw [ih hlex]
    simp [Category.contents, Statement.contents]
  | function hf hn hp _ ih =>
    intro hlex rest
    obtain ⟨⟨hf', -, hp'⟩, hb'⟩ := by simpa only [lexemes_append, lexemes_cons] using hlex
    simp only [List.cons_append, List.append_assoc]
    rw [contents_mark hf rfl (by decide) hf', contents_name hn, hp.contents_append hp', ih hb']
    simp [Category.contents, Statement.contents]
  | conditional hb ih =>
    intro hlex rest
    rw [ih hlex]
    simp [Category.contents, Statement.contents]
  | forOf hf ho hl hx hw hy hc _ ih =>
    intro hlex rest
    obtain ⟨hf', ho', hl', -, hw', -, hc', hb'⟩ := by simpa only [lexemes_cons] using hlex
    simp only [List.cons_append]
    rw [contents_mark hf rfl (by decide) hf', contents_mark ho rfl (by decide) ho',
      contents_mark hl rfl (by decide) hl', contents_name hx, contents_mark hw rfl (by decide) hw',
      contents_name hy, contents_mark hc rfl (by decide) hc', ih hb']
    simp [Category.contents, Statement.contents]
  | braces ho _ hc ih =>
    intro hlex rest
    obtain ⟨⟨ho', hb'⟩, hc', -⟩ := by simpa only [lexemes_append, lexemes_cons] using hlex
    simp only [List.cons_append, List.append_assoc, List.nil_append]
    rw [contents_mark ho rfl (by decide) ho', ih hb', contents_mark hc rfl (by decide) hc']
    simp [Category.contents, inBraces]
  | nil =>
    intro _ rest
    simp [Category.contents, bodyContents]
  | cons _ _ ihs ihb =>
    intro hlex rest
    obtain ⟨hs, hb⟩ := lexemes_append.1 hlex
    rw [List.append_assoc, ihs hs, ihb hb]
    simp [Category.contents, bodyContents]
  | branch hi ho he hc _ _ ihb iha =>
    intro hlex rest
    obtain ⟨⟨⟨hi', ho', he'⟩, hc', hb'⟩, ha'⟩ := by
      simpa only [lexemes_append, lexemes_cons] using hlex
    simp only [List.cons_append, List.append_assoc]
    rw [contents_mark hi rfl (by decide) hi', contents_mark ho rfl (by decide) ho',
      he.contents_append he', contents_mark hc rfl (by decide) hc', ihb hb', iha ha']
    simp [Category.contents, Branch.contents]
  | absent =>
    intro _ rest
    simp [Category.contents, Alternate.contents]
  | elseBlock hw _ ih =>
    intro hlex rest
    obtain ⟨hw', hb'⟩ := lexemes_cons.1 hlex
    rw [List.cons_append, contents_mark hw rfl (by decide) hw', ih hb']
    simp [Category.contents, Alternate.contents]
  | elseBranch hw _ ih =>
    intro hlex rest
    obtain ⟨hw', hb'⟩ := lexemes_cons.1 hlex
    rw [List.cons_append, contents_mark hw rfl (by decide) hw', ih hb']
    simp [Category.contents, Alternate.contents]

def Program.contents (p : Program) : List Content := bodyContents p.statements

theorem Derives.contents_eq {ts : List Token} {p : Program} (h : Derives ts p)
    (hlex : Lexemes ts) : contents ts = p.contents := by
  have happ := h.body.contents_append hlex []
  rwa [List.append_nil, contents, List.append_nil] at happ

/-- Contents do not depend on where tokens stand. -/
theorem contents_congr {ts us : List Token}
    (h : ts.map (fun t => (t.kind, t.lexeme)) = us.map fun t => (t.kind, t.lexeme)) :
    contents ts = contents us := by
  induction ts generalizing us with
  | nil =>
    obtain rfl : us = [] := List.map_eq_nil_iff.1 h.symm
    rfl
  | cons t ts ih =>
    obtain ⟨u, us, rfl, hu, hus⟩ := List.map_eq_cons_iff.1 h.symm
    obtain ⟨hk, hl⟩ := Prod.mk.inj hu
    have hnext : nextKind us = nextKind ts := by
      have := congrArg (List.map Prod.fst) hus
      simp only [List.map_map, Function.comp_def] at this
      rw [nextKind, nextKind]
      exact congrArg List.head? this
    have hcontent : u.content = t.content := by
      simp only [Token.content, hk, hl]
    rw [contents, contents, ih hus.symm, hnext, hcontent, hk]

end Scriptlet
