import Scriptlet.Proofs.Scan.Spacing
import Scriptlet.Proofs.Syntax.Image

/-!
# Scriptlet.Proofs.Syntax.TrailingComma

Commas after the last parameter of a function.

A comma and a closing parenthesis that touch are one token, which has no place in the grammar
(`DerivesPhrase.ne_fused`). If anything stands between them they are two tokens, and a list of
parameters may end after the comma. `trailing_comma_refused_iff_touching` says it for the functions
`commaFunction f ns gap`, and that in an accepted text no comma touches the parenthesis after it.
-/

namespace Scriptlet

/-! ## The fused token has no place -/

theorem Leaf.ne_fused {t : Token} {e : Expression} (h : Leaf t e) : t.kind ≠ .commaCloseParen := by
  cases h <;> simp_all

theorem DerivesExpression.ne_fused {ts : List Token} {e : Expression}
    (h : DerivesExpression ts e) : ∀ t ∈ ts, t.kind ≠ .commaCloseParen := by
  induction h with
  | leaf ht => simpa using ht.ne_fused
  | binary ht ho _ _ ih => simpa [ho, ht.ne_fused] using ih
  | declaration hd hn ha _ ih => simpa [hd, hn, ha] using ih

theorem DerivesFurther.ne_fused {ts : List Token} {ns : List String} (h : DerivesFurther ts ns) :
    ∀ t ∈ ts, t.kind ≠ .commaCloseParen := by
  induction h with
  | close hc => simp [hc]
  | trailing hm hc => simp [hm, hc]
  | more hm hn _ ih => simpa [hm, hn] using ih

theorem DerivesParameters.ne_fused {ts : List Token} {ns : List String}
    (h : DerivesParameters ts ns) : ∀ t ∈ ts, t.kind ≠ .commaCloseParen := by
  cases h with
  | none ho hc => simp [ho, hc]
  | some ho hn hts => simpa [ho, hn] using hts.ne_fused

theorem DerivesPhrase.ne_fused {c : Category} {ts : List Token} {x : c.Tree}
    (h : DerivesPhrase c ts x) : ∀ t ∈ ts, t.kind ≠ .commaCloseParen := by
  induction h with
  | expression he hs => simpa [or_imp, forall_and, hs] using he.ne_fused
  | block _ ih | conditional _ ih => exact ih
  | function hf hn hps _ ih => simpa [or_imp, forall_and, hf, hn] using And.intro hps.ne_fused ih
  | forOf hf ho hl hx hw hy hc _ ih => simpa [hf, ho, hl, hx, hw, hy, hc] using ih
  | braces ho _ hc ih => simpa [or_imp, forall_and, ho, hc] using ih
  | nil | absent => exact nofun
  | cons _ _ ihs ihb => exact List.forall_mem_append.2 ⟨ihs, ihb⟩
  | branch hi ho he hc _ _ ihb iha =>
    simpa [or_imp, forall_and, hi, ho, hc] using And.intro he.ne_fused (And.intro ihb iha)
  | elseBlock hw _ ih | elseBranch hw _ ih => simpa [hw] using ih

/-! ## Commas that touch the parenthesis -/

/-- A comma of its own does not touch a closing parenthesis. -/
theorem ReadsBack.gap_ne_nil {xs : List Printed} {tail : List Char} (h : ReadsBack xs tail)
    {before after : List Printed} {m c : Printed} (hxs : xs = before ++ m :: c :: after)
    (hm : m.kind = .comma) (hc : c.kind = .closeParen) : c.gap ≠ [] := by
  induction before generalizing xs with
  | nil =>
    subst hxs
    obtain ⟨-, hends, ⟨hlex, -⟩, -⟩ := h
    rw [hc] at hlex
    have hparen : c.lexeme = [')'] := by
      simpa [Kind.Lexeme, Kind.spellings, Kind.spelling?] using hlex
    intro hgap
    rw [hm, printText_cons, hgap, hparen] at hends
    have hgoes := hends ')' rfl
    cases hgoes
  | cons x before ih =>
    subst hxs
    exact ih h.2.2 rfl

/-! ## Functions whose parameters all have a comma -/

/-- The only text of a kind, or one of them. -/
def Printed.sample (gap : List Char) (k : Kind) : Printed := ⟨gap, k, k.sample⟩

def Printed.name (n : String) : Printed := ⟨[' '], .identifier, n.toList⟩

def Printed.token (x : Printed) : Token := ⟨x.kind, String.ofList x.lexeme, .start⟩

/-- The beginning of a function, up to parameters that each have a comma after them. -/
def commaHead (f : String) (ns : List String) : List Printed :=
  .sample [] .functionWord :: .name f :: .sample [' '] .openParen ::
    ns.flatMap fun n => [.name n, .sample [' '] .comma]

def emptyBody : List Printed := [.sample [' '] .openBrace, .sample [' '] .closeBrace]

/-- A function with a comma after each parameter, and `gap` between the last comma and the
parenthesis. -/
def commaFunction (f : String) (ns : List String) (gap : List Char) : String :=
  String.ofList (printText (commaHead f ns ++ .sample gap .closeParen :: emptyBody) [])

example : commaFunction "f" ["a", "b"] ['\n'] = "function f ( a , b ,\n) \x7b \x7d" := by decide

theorem kinds_of_words {ts : List Token} {xs : List Printed}
    (h : ts.map Token.word = xs.map Printed.word) : ts.map Token.kind = xs.map Printed.kind := by
  have hfst := congrArg (List.map Prod.fst) h
  rw [List.map_map, List.map_map] at hfst
  exact hfst

theorem Printed.lexeme_token_name (n : String) : (Printed.name n).token.lexeme = n :=
  String.ofList_toList

theorem readsParameter_commas (ns : List String) {c : Token} (hc : c.kind = .closeParen) :
    ReadsParameter ((ns.flatMap fun n => [Printed.name n, .sample [' '] .comma]).map
      Printed.token ++ [c]) ns := by
  induction ns with
  | nil => exact .close hc
  | cons n ns ih =>
    have hmore : DerivesFurther _ ns := ih.further (m := (Printed.sample [' '] .comma).token) rfl
    have hname := ReadsParameter.name (n := (Printed.name n).token) rfl hmore
    rw [Printed.lexeme_token_name] at hname
    exact hname

theorem derives_commaFunction (f : String) (ns : List String) (gap : List Char) :
    Derives ((commaHead f ns ++ .sample gap .closeParen :: emptyBody).map Printed.token)
      ⟨[.function f ns []]⟩ := by
  have hparameters := (readsParameter_commas ns (c := (Printed.sample gap .closeParen).token)
    rfl).parameters (o := (Printed.sample [' '] .openParen).token) rfl
  have hbody : DerivesPhrase .block (emptyBody.map Printed.token) [] :=
    .braces (o := (Printed.sample [' '] .openBrace).token)
      (c := (Printed.sample [' '] .closeBrace).token) rfl .nil rfl
  have hfunction := DerivesPhrase.function (f := (Printed.sample [] .functionWord).token)
    (n := (Printed.name f).token) rfl rfl hparameters hbody
  rw [Printed.lexeme_token_name] at hfunction
  have hprogram := DerivesPhrase.cons hfunction .nil
  refine ⟨?_, nofun⟩
  simpa [commaHead] using hprogram

/-! ## Reading them -/

/-- A word that can be read back, with trivia before it. -/
structure Printed.Apart (x : Printed) : Prop where
  printable : x.kind.Printable x.lexeme
  trivia : Trivia x.gap
  gap_ne_nil : x.gap ≠ []

theorem Printed.apart_sample {gap : List Char} (h : Trivia gap) (hne : gap ≠ []) (k : Kind) :
    (Printed.sample gap k).Apart := ⟨printable_sample k, h, hne⟩

theorem Printed.apart_name {n : String} (h : IsName n) : (Printed.name n).Apart :=
  ⟨h, trivia_space, nofun⟩

theorem apart_commaHead {f : String} {ns : List String} (hf : IsName f) (hns : ∀ n ∈ ns, IsName n) :
    ∀ x ∈ (commaHead f ns).tail, x.Apart := by
  have hmark := Printed.apart_sample trivia_space (List.cons_ne_nil _ _)
  simp only [commaHead, List.tail_cons, List.forall_mem_cons, List.forall_mem_flatMap]
  refine ⟨Printed.apart_name hf, hmark _, fun n hn => ?_⟩
  exact ⟨Printed.apart_name (hns n hn), hmark _, nofun⟩

theorem apart_emptyBody : ∀ x ∈ emptyBody, x.Apart := by
  have hmark := Printed.apart_sample trivia_space (List.cons_ne_nil _ _)
  simp only [emptyBody, List.forall_mem_cons]
  exact ⟨hmark _, hmark _, nofun⟩

theorem printable_commaHead {f : String} {ns : List String} (hf : IsName f)
    (hns : ∀ n ∈ ns, IsName n) {rest : List Printed} (hrest : ∀ x ∈ rest, x.Apart) :
    ∀ x ∈ commaHead f ns ++ rest, x.kind.Printable x.lexeme := by
  have hapart : ∀ x ∈ (commaHead f ns ++ rest).tail, x.Apart :=
    List.forall_mem_append.2 ⟨apart_commaHead hf hns, hrest⟩
  exact List.forall_mem_cons.2 ⟨printable_sample _, fun x hx => (hapart x hx).printable⟩

theorem scan_commaHead {f : String} {ns : List String} (hf : IsName f) (hns : ∀ n ∈ ns, IsName n)
    {rest : List Printed} (hrest : ∀ x ∈ rest, x.Apart) :
    ∃ ts, scan (String.ofList (printText (commaHead f ns ++ rest) [])) = ⟨ts, none⟩ ∧
      ts.map Token.word = (commaHead f ns ++ rest).map Printed.word := by
  have hapart : ∀ x ∈ (commaHead f ns ++ rest).tail, x.Apart :=
    List.forall_mem_append.2 ⟨apart_commaHead hf hns, hrest⟩
  have hgap : ∀ x ∈ commaHead f ns ++ rest, Trivia x.gap :=
    List.forall_mem_cons.2 ⟨.nil, fun x hx => (hapart x hx).trivia⟩
  obtain ⟨ts, hfeed, hts⟩ := feed_printText (printable_commaHead hf hns hrest) hgap
    (fun x hx => (hapart x hx).gap_ne_nil) (.inl .nil)
    (printText (commaHead f ns ++ rest) []) .start
  refine ⟨ts, ?_, hts⟩
  rw [scan, String.toList_ofList, Scanner.start, hfeed]

theorem parse_commaFunction {f : String} {ns : List String} {gap : List Char} (hf : IsName f)
    (hns : ∀ n ∈ ns, IsName n) (hgap : Trivia gap) (hne : gap ≠ []) :
    ∃ ts, tokenize (commaFunction f ns gap) = .ok ts ∧
      ts.map Token.word =
        (commaHead f ns ++ .sample gap .closeParen :: emptyBody).map Printed.word ∧
      parse (commaFunction f ns gap) = .ok ⟨[.function f ns []]⟩ := by
  have hrest : ∀ x ∈ .sample gap .closeParen :: emptyBody, x.Apart :=
    List.forall_mem_cons.2 ⟨Printed.apart_sample hgap hne _, apart_emptyBody⟩
  obtain ⟨ts, hscan, hts⟩ := scan_commaHead hf hns hrest
  refine ⟨ts, tokenize_eq_ok_iff.2 hscan, hts, ?_⟩
  refine parse_of_words (derives_commaFunction f ns gap) ?_ hscan (by rw [List.map_map]; exact hts)
  intro t ht
  obtain ⟨x, hx, rfl⟩ := List.mem_map.1 ht
  rw [Token.Printable, Printed.token, String.toList_ofList]
  exact printable_commaHead hf hns hrest x hx

theorem consumeAll_commas (ns : List String) (gs : List Goal) :
    consumeAll (.parameter :: gs)
      ((ns.flatMap fun n => [Printed.name n, .sample [' '] .comma]).map Printed.kind) =
        some (.parameter :: gs) := by
  induction ns with
  | nil => rfl
  | cons n ns ih => exact ih

theorem consumeAll_commaHead (f : String) (ns : List String) :
    consumeAll programGoals ((commaHead f ns).map Printed.kind) =
      some [.parameter, .block, .statements none] :=
  consumeAll_commas ns _

/-- A comma that touches the parenthesis is refused, and reported at the place of the comma. -/
theorem parse_commaFunction_touching {f : String} {ns : List String} (hf : IsName f)
    (hns : ∀ n ∈ ns, IsName n) (hne : ns ≠ []) :
    ∃ position, parse (commaFunction f ns []) =
      .error (.unexpectedToken .comma .closeParen position) := by
  obtain ⟨ms, n, rfl⟩ : ∃ ms n, ns = ms ++ [n] := ⟨_, _, (List.dropLast_append_getLast hne).symm⟩
  obtain ⟨hms, hn⟩ := List.forall_mem_append.1 hns
  have htext : commaFunction f (ms ++ [n]) [] = String.ofList (printText (commaHead f ms ++
      .name n :: .sample [' '] .commaCloseParen :: emptyBody) []) := by
    have hfused : Kind.commaCloseParen.sample = Kind.comma.sample ++ Kind.closeParen.sample := by
      decide
    simp [commaFunction, commaHead, printText, Printed.text, Printed.sample, hfused]
  have hrest : ∀ x ∈ .name n :: .sample [' '] .commaCloseParen :: emptyBody, x.Apart :=
    List.forall_mem_cons.2 ⟨Printed.apart_name (hn n List.mem_cons_self), List.forall_mem_cons.2
      ⟨Printed.apart_sample trivia_space (List.cons_ne_nil _ _) _, apart_emptyBody⟩⟩
  obtain ⟨ts, hscan, hts⟩ := scan_commaHead hf hms hrest
  rw [← List.singleton_append, ← List.append_assoc, List.map_append, List.map_eq_append_iff] at hts
  obtain ⟨read, later, rfl, hread, hlater⟩ := hts
  obtain ⟨t, rest, rfl, ht, -⟩ := List.map_eq_cons_iff.1 hlater
  have hkind : t.kind = .commaCloseParen := congrArg Prod.fst ht
  refine ⟨t.position, parse_of_stops ?_⟩
  rw [htext, hscan]
  have hpass : Passes programGoals read (t :: rest)
      [.afterParameter, .block, .statements none] := by
    refine ⟨_, ?_, rfl⟩
    rw [kinds_of_words hread, List.map_append, consumeAll_append, consumeAll_commaHead]
    rfl
  have hd : demandOf [.afterParameter, .block, .statements none] (some t.kind) =
      some ⟨.closeParen, [.block, .statements none], some .comma⟩ := by
    rw [hkind]
    rfl
  exact .token rfl hpass hd (by rw [hkind]; decide)

/-! ## The commas that are accepted -/

/-- In an accepted text a comma does not touch a parenthesis after it, as its own token or not. -/
theorem Spaced.comma_apart {source : String} {p : Program} {xs : List Printed} {tail : List Char}
    (h : Spaced source xs tail) (hparse : parse source = .ok p) :
    (∀ x ∈ xs, x.kind ≠ .commaCloseParen) ∧
      ∀ before m c after, xs = before ++ m :: c :: after → m.kind = .comma →
        c.kind = .closeParen → c.gap ≠ [] := by
  obtain ⟨ts, hts, hwords⟩ := h.tokens
  obtain ⟨ts', hts', hp⟩ := derives_of_parse hparse
  obtain rfl : ts = ts' := Except.ok.inj (hts.symm.trans (tokenize_eq_ok_iff.2 hts'))
  constructor
  · intro x hx
    have hkind : x.kind ∈ ts.map Token.kind := kinds_of_words hwords ▸ List.mem_map_of_mem hx
    obtain ⟨t, ht, heq⟩ := List.mem_map.1 hkind
    rw [← heq]
    exact hp.body.ne_fused t ht
  · intro before m c after hxs hm hc
    exact h.readsBack.gap_ne_nil hxs hm hc

theorem commaFunction_kinds (f : String) {ns : List String} (hne : ns ≠ []) (gap : List Char) :
    [Kind.comma, .closeParen] <:+:
      (commaHead f ns ++ .sample gap .closeParen :: emptyBody).map Printed.kind := by
  obtain ⟨ms, n, rfl⟩ : ∃ ms n, ns = ms ++ [n] := ⟨_, _, (List.dropLast_append_getLast hne).symm⟩
  refine ⟨(commaHead f ms ++ [Printed.name n]).map Printed.kind, emptyBody.map Printed.kind, ?_⟩
  simp [commaHead, Printed.sample]

/-- A comma after the last parameter is refused if it touches the parenthesis, and only then. In an
accepted text no comma touches the parenthesis after it, whatever it stands in. -/
theorem trailing_comma_refused_iff_touching {f : String} {ns : List String} {gap : List Char}
    (hf : IsName f) (hns : ∀ n ∈ ns, IsName n) (hne : ns ≠ []) (hgap : Trivia gap) :
    (gap = [] → ∃ position, parse (commaFunction f ns gap) =
      .error (.unexpectedToken .comma .closeParen position)) ∧
    (gap ≠ [] → parse (commaFunction f ns gap) = .ok ⟨[.function f ns []]⟩ ∧
      ∃ ts, tokenize (commaFunction f ns gap) = .ok ts ∧
        [Kind.comma, .closeParen] <:+: ts.map Token.kind) ∧
    ∀ (source : String) (p : Program), parse source = .ok p →
      (∃ xs tail, Spaced source xs tail) ∧ ∀ xs tail, Spaced source xs tail →
        (∀ x ∈ xs, x.kind ≠ .commaCloseParen) ∧
        ∀ before m c after, xs = before ++ m :: c :: after → m.kind = .comma →
          c.kind = .closeParen → c.gap ≠ [] := by
  refine ⟨?_, ?_, ?_⟩
  · rintro rfl
    exact parse_commaFunction_touching hf hns hne
  · intro hapart
    obtain ⟨ts, hts, hwords, hparse⟩ := parse_commaFunction hf hns hgap hapart
    refine ⟨hparse, ts, hts, ?_⟩
    rw [kinds_of_words hwords]
    exact commaFunction_kinds f hne gap
  · intro source p hparse
    obtain ⟨ts, hts, -⟩ := derives_of_parse hparse
    exact ⟨exists_spaced (tokenize_eq_ok_iff.2 hts), fun xs tail h => h.comma_apart hparse⟩

theorem trailing_comma_after_lineFeed :
    parse "function f ( a ,\n) \x7b \x7d" = .ok ⟨[.function "f" ["a"] []]⟩ := by
  have hf : IsName "f" := printable_letter (by decide +kernel)
  have ha : ∀ n ∈ ["a"], IsName n := by
    rintro n (_ | ⟨_, hn⟩)
    · exact printable_letter (by decide +kernel)
    · cases hn
  have hgap : Trivia ['\n'] := .blank isBlank_lineFeed .nil
  obtain ⟨-, happart, -⟩ := trailing_comma_refused_iff_touching hf ha (List.cons_ne_nil _ _) hgap
  obtain ⟨hparse, -⟩ := happart (List.cons_ne_nil _ _)
  have htext : commaFunction "f" ["a"] ['\n'] = "function f ( a ,\n) \x7b \x7d" := by decide
  rw [← htext]
  exact hparse

theorem parse_trailing_comma :
    ∃ p ts, parse "function f(a, ) \x7b\x7d" = .ok p ∧
      tokenize "function f(a, ) \x7b\x7d" = .ok ts ∧
      [Kind.comma, .closeParen] <:+: ts.map Token.kind := by
  have hkinds : consumeAll programGoals ((scan "function f(a, ) \x7b\x7d").tokens.map Token.kind) =
      some [.statements none] := by decide +kernel
  obtain ⟨p, htokens, hparse⟩ := parse_of_kinds (by decide +kernel) hkinds rfl
  exact ⟨p, _, hparse, htokens, by decide +kernel⟩

end Scriptlet
