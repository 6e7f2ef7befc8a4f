import Scriptlet.Proofs.Scan.NextLine
import Scriptlet.Proofs.Syntax.Acceptance

/-!
# Scriptlet.Proofs.Syntax.Composition

A program with a text in the lines below it.

* `Fault.below n f`  — a fault in a text that stands `n` lines lower.

The tokens of both texts are read one after the other. After those of a program the parser is where
it was before the first one, but that a conditional at the end of the program would go on with
`else`, and that nothing has to come any more (`Stops.after_program`). So the program of the text
below is appended, and its fault is reported where it has moved to.
-/

namespace Scriptlet

/-! ## Tokens that were moved -/

section Below

variable {n : Nat} {ts : List Token}

theorem map_kind_below (n : Nat) (ts : List Token) :
    (ts.map (Token.below n)).map Token.kind = ts.map Token.kind := by
  rw [List.map_map]
  rfl

theorem nextKind_below (n : Nat) (ts : List Token) :
    nextKind (ts.map (Token.below n)) = nextKind ts := by
  rw [nextKind, map_kind_below, nextKind]

theorem Leaf.moved {t : Token} {e : Expression} (h : Leaf t e) : Leaf (t.below n) e := by
  cases h with
  | number hk hx => exact .number hk hx
  | string hk hs => exact .string hk hs
  | boolean hk hb => exact .boolean hk hb
  | identifier hk => exact .identifier (t := t.below n) hk

theorem DerivesExpression.moved {e : Expression} (h : DerivesExpression ts e) :
    DerivesExpression (ts.map (Token.below n)) e := by
  induction h with
  | leaf ht => exact .leaf ht.moved
  | binary ht ho hp _ ih => exact .binary (o := Token.below n _) ht.moved ho hp ih
  | declaration hd hn ha _ ih => exact .declaration (n := Token.below n _) hd hn ha ih

theorem DerivesFurther.moved {ns : List String} (h : DerivesFurther ts ns) :
    DerivesFurther (ts.map (Token.below n)) ns := by
  induction h with
  | close hc => exact .close hc
  | trailing hm hc => exact .trailing hm hc
  | more hm hn _ ih => exact .more (n := Token.below n _) hm hn ih

theorem DerivesParameters.moved {ns : List String} (h : DerivesParameters ts ns) :
    DerivesParameters (ts.map (Token.below n)) ns := by
  cases h with
  | none ho hc => exact .none ho hc
  | some ho hn hts => exact .some (n := Token.below n _) ho hn hts.moved

theorem DerivesPhrase.moved {c : Category} {x : c.Tree} (h : DerivesPhrase c ts x) :
    DerivesPhrase c (ts.map (Token.below n)) x := by
  induction h with
  | expression he hs =>
    rw [List.map_append]
    exact .expression he.moved hs
  | block _ ih => exact .block ih
  | function hf hn hp _ ih =>
    rw [List.map_append]
    exact .function (n := Token.below n _) hf hn hp.moved ih
  | conditional _ ih => exact .conditional ih
  | forOf hf ho hl hx hw hy hc _ ih =>
    exact .forOf (x := Token.below n _) (y := Token.below n _) hf ho hl hx hw hy hc ih
  | braces ho _ hc ih =>
    rw [List.map_append]
    exact .braces ho ih hc
  | nil => exact .nil
  | cons _ _ ihs ihb =>
    rw [List.map_append]
    exact .cons ihs ihb
  | branch hi ho he hc _ _ ihb iha =>
    rw [List.map_append, List.map_append]
    exact .branch hi ho he.moved hc ihb iha
  | absent => exact .absent
  | elseBlock hw _ ih => exact .elseBlock hw ih
  | elseBranch hw _ ih => exact .elseBranch hw ih

theorem Passes.moved {gs hs : List Goal} {rest : List Token} (h : Passes gs ts rest hs) :
    Passes gs (ts.map (Token.below n)) (rest.map (Token.below n)) hs :=
  (h.of_kinds (map_kind_below n ts)).before (nextKind_below n rest)

end Below

theorem Feed.eq_nothing_of_below {n : Nat} {f : Feed} (h : f.below n = ⟨[], none⟩) :
    f = ⟨[], none⟩ := by
  obtain ⟨tokens, fault?⟩ := f
  simpa [Feed.below] using h

def Fault.below (n : Nat) : Fault → Fault
  | lexical f => lexical (f.below n)
  | unexpectedToken found expected p => unexpectedToken found expected (p.below n)
  | unexpectedEnd expected => unexpectedEnd expected

theorem Stops.moved {gs : List Goal} {feed : Feed} {f : Fault} (h : Stops gs feed f) (n : Nat) :
    Stops gs (feed.below n) (f.below n) := by
  cases h with
  | @lexical _ e hfault hpass =>
    have hfault' : (feed.below n).fault? = some (e.below n) := by
      rw [Feed.fault?_below, hfault, Option.map_some]
    exact .lexical hfault' hpass.moved
  | token htokens hpass hd hne =>
    have htokens' := congrArg (List.map (Token.below n)) htokens
    rw [List.map_append, List.map_cons] at htokens'
    exact .token htokens' hpass.moved hd hne
  | ending hfault hpass hd =>
    have hfault' : (feed.below n).fault? = none := by
      rw [Feed.fault?_below, hfault, Option.map_none]
    exact .ending hfault' hpass.moved hd

/-! ## After a program -/

theorem DerivesPhrase.append {ts us : List Token} {b b' : List Statement}
    (h : DerivesPhrase .body ts b) (h' : DerivesPhrase .body us b') :
    DerivesPhrase .body (ts ++ us) (b ++ b') := by
  induction b generalizing ts with
  | nil =>
    cases h with
    | nil => exact h'
  | cons s b ih =>
    cases h with
    | cons hs hb =>
      rw [List.append_assoc]
      exact .cons hs (ih hb)

theorem Derives.append {ts us : List Token} {p q : Program} (hp : Derives ts p)
    (hq : Derives us q) : Derives (ts ++ us) ⟨p.statements ++ q.statements⟩ :=
  ⟨hp.body.append hq.body, List.append_ne_nil_of_left_ne_nil hp.nonempty _⟩

/-- A feed stops at the same fault after a program, unless there is nothing in it or it begins with
`else`. -/
theorem Stops.after_program {ts : List Token} {p : Program} (hp : Derives ts p) {feed : Feed}
    {f : Fault} (h : Stops programGoals feed f) (hfeed : feed ≠ ⟨[], none⟩)
    (helse : nextKind feed.tokens ≠ some .elseWord) :
    Stops programGoals (feed.after ts) f := by
  refine Stops.of_passes (hp.passes_on helse) ?_
  obtain ⟨tokens, fault?⟩ := feed
  cases tokens with
  | cons t us =>
    refine h.congr (demandOf_statements ?_ [])
    rintro (heq | heq) <;> cases heq
  | nil =>
    cases h with
    | lexical hfault _ => exact .lexical hfault (.refl _ [])
    | token htokens _ _ _ =>
      have hlength := congrArg List.length htokens
      simp at hlength
    | ending hfault _ _ => exact absurd (congrArg (Feed.mk []) hfault) hfeed

/-! ## Texts below a program -/

/-- A text that begins with a token other than `else`, or with a fault. -/
theorem scan_of_first {c : String}
    (h : (∃ t s, (Scanner.start c.toList).nextToken = (.token t, s) ∧ t.kind ≠ .elseWord) ∨
      ∃ g s, (Scanner.start c.toList).nextToken = (.fault g, s)) :
    scan c ≠ ⟨[], none⟩ ∧ nextKind (scan c).tokens ≠ some .elseWord := by
  rcases h with ⟨t, s, hnext, ht⟩ | ⟨g, s, hnext⟩
  · rw [scan, Scanner.feed_token hnext]
    exact ⟨by simp, fun he => ht (Option.some.inj he)⟩
  · rw [scan, Scanner.feed_fault hnext]
    exact ⟨by simp, by simp⟩

/-- The statements of a text in the lines below a program are appended to those of the program,
and a fault of the text is reported that many lines lower, unless the text begins with `else`. -/
theorem parse_nextLine {a : String} {p : Program} (ha : parse a = .ok p) (c : String) :
    (∀ q, parse c = .ok q → parse (a ++ "\n" ++ c) = .ok ⟨p.statements ++ q.statements⟩) ∧
    (FinalTrivia c.toList → parse (a ++ "\n" ++ c) = .ok p) ∧
    ∀ f, parse c = .error f →
      ((∃ t s, (Scanner.start c.toList).nextToken = (.token t, s) ∧ t.kind ≠ .elseWord) ∨
        ∃ g s, (Scanner.start c.toList).nextToken = (.fault g, s)) →
      parse (a ++ "\n" ++ c) = .error (f.below (a.toList.count '\n' + 1)) := by
  obtain ⟨ts, hts, hp⟩ := derives_of_parse ha
  have hscan := scan_nextLine hts c
  refine ⟨fun q hq => ?_, fun hc => ?_, fun f hf hfirst => ?_⟩
  · obtain ⟨us, hus, hq⟩ := derives_of_parse hq
    rw [hus] at hscan
    exact parse_of_derives hscan (hp.append ⟨hq.body.moved, hq.nonempty⟩)
  · have hnone : scan c = ⟨[], none⟩ := Scanner.feed_finish (nextToken_finalTrivia hc)
    rw [hnone, Feed.after, Feed.below, List.map_nil, List.append_nil] at hscan
    exact parse_of_derives hscan hp
  · obtain ⟨hne, helse⟩ := scan_of_first hfirst
    have hstop := (stops_of_parse hf).moved (a.toList.count '\n' + 1)
    refine parse_of_stops ?_
    rw [hscan]
    refine hstop.after_program hp (fun heq => hne (Feed.eq_nothing_of_below heq)) ?_
    rw [Feed.tokens_below, nextKind_below]
    exact helse

/-- No statement begins with a semicolon. -/
theorem parse_semicolon :
    parse ";" = .error (.unexpectedToken .semicolon .identifier ⟨1, 0⟩) := by
  have hscan : scan ";" = ⟨[⟨.semicolon, ";", ⟨1, 0⟩⟩], none⟩ := by decide +kernel
  have hdemand : demandOf programGoals (some .semicolon) =
      some ⟨.identifier, [.chain, .token .semicolon, .statements none], none⟩ := rfl
  refine parse_of_stops ?_
  rw [hscan]
  exact .token (t := ⟨.semicolon, ";", ⟨1, 0⟩⟩) rfl (.refl programGoals _) hdemand (by decide)

/-- A semicolon below a statement is refused in its own line. -/
theorem parse_nextLine_semicolon :
    parse "a;" = .ok ⟨[.expression (.identifier "a")]⟩ ∧
      parse "a;\n;" = .error (.unexpectedToken .semicolon .identifier ⟨2, 0⟩) := by
  have hscan : scan "a;" =
      ⟨[⟨.identifier, "a", ⟨1, 0⟩⟩, ⟨.semicolon, ";", ⟨1, 1⟩⟩], none⟩ := by decide +kernel
  have ha : parse "a;" = .ok ⟨[.expression (.identifier "a")]⟩ :=
    parse_of_derives hscan ⟨.cons (.expression (.leaf (.identifier rfl)) rfl) .nil, nofun⟩
  have hfirst : (Scanner.start ";".toList).nextToken =
      (.token ⟨.semicolon, ";", ⟨1, 0⟩⟩, ⟨[';'], [], ⟨1, 1⟩⟩) := by decide +kernel
  exact ⟨ha, (parse_nextLine ha ";").2.2 _ parse_semicolon (.inl ⟨_, _, hfirst, by decide⟩)⟩

end Scriptlet
