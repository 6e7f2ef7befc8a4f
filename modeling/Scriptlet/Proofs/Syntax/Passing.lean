import Scriptlet.Proofs.Syntax.Agenda
import Scriptlet.Proofs.Syntax.Unambiguous

/-!
# Scriptlet.Proofs.Syntax.Passing

The tokens of a phrase are what its goal asks for, one after the other: they lead from an agenda
that begins with the goal to the rest of the agenda. What comes after the phrase must not be a
token with which it could go on, since the agenda would take that token for it.

`Derives.passes` says it for a whole program, after which nothing has to come, and
`Derives.passes_on` for one after which more statements may come.
-/

namespace Scriptlet

theorem Leaf.leafKind {t : Token} {e : Expression} (h : Leaf t e) :
    Demand.leafKind (some t.kind) = t.kind := by
  cases h <;> simp_all [Demand.leafKind]

/-! ## Passing one goal -/

namespace Passes

variable {g : Goal} {gs hs after : List Goal} {t : Token} {ts rest : List Token} {k : Kind}

/-- A goal that asks for a token of the next one's kind. -/
theorem demanded (hk : t.kind = k) (h : g.demand (some k) = some ⟨k, after, none⟩)
    (hp : Passes (after ++ gs) ts rest hs) : Passes (g :: gs) (t :: ts) rest hs := by
  refine congr ?_ (cons hk hp)
  rw [List.cons_append, nextKind_cons, hk]
  exact demandOf_unfold h gs

/-- A goal for which nothing has to come. -/
theorem absent (h : g.demand (nextKind rest) = none) : Passes (g :: gs) [] rest gs :=
  ⟨g :: gs, rfl, demandOf_cons_none h gs⟩

theorem same {g' : Goal} (h : g.demand (nextKind (ts ++ rest)) = g'.demand (nextKind (ts ++ rest)))
    (hp : Passes (g' :: gs) ts rest hs) : Passes (g :: gs) ts rest hs := by
  refine congr ?_ hp
  rw [demandOf, demandOf, h]

end Passes

/-! ## Expressions and parameters -/

theorem DerivesExpression.passes {ts : List Token} {e : Expression} (h : DerivesExpression ts e) :
    ∀ {rest : List Token} (gs : List Goal), nextKind rest ≠ some .operator →
      Passes (.expression :: gs) ts rest gs := by
  have leaf : ∀ {t : Token} {l : Expression}, Leaf t l →
      Goal.expression.demand (some t.kind) = some ⟨t.kind, [.chain], none⟩ := by
    intro t l hl
    have hne : some t.kind ≠ some Kind.letWord := fun heq => hl.ne_letWord (Option.some.inj heq)
    rw [demand_expression hne, hl.leafKind]
  induction h with
  | leaf ht =>
    intro rest gs hrest
    refine Passes.demanded rfl (leaf ht) (Passes.absent ?_)
    rw [Goal.demand, if_neg hrest]
  | binary ht ho _ _ ih =>
    intro rest gs hrest
    exact Passes.demanded rfl (leaf ht) (Passes.demanded ho rfl (ih gs hrest))
  | declaration hd hn ha _ ih =>
    intro rest gs hrest
    exact Passes.demanded hd rfl (.cons hn (.cons ha (ih gs hrest)))

theorem DerivesFurther.passes {ts : List Token} {ns : List String} (h : DerivesFurther ts ns)
    (rest : List Token) (gs : List Goal) : Passes (.afterParameter :: gs) ts rest gs := by
  induction h with
  | close hc => exact Passes.demanded hc rfl (.refl gs rest)
  | trailing hm hc => exact Passes.demanded hm rfl (Passes.demanded hc rfl (.refl gs rest))
  | more hm hn _ ih => exact Passes.demanded hm rfl (Passes.demanded hn rfl ih)

theorem DerivesParameters.passes {ts : List Token} {ns : List String}
    (h : DerivesParameters ts ns) (rest : List Token) (gs : List Goal) :
    Passes (.parameters :: gs) ts rest gs := by
  cases h with
  | none ho hc => exact Passes.demanded ho rfl (Passes.demanded hc rfl (.refl gs rest))
  | some ho hn hts =>
    exact Passes.demanded ho rfl (Passes.demanded hn rfl (hts.passes rest gs))

/-! ## Statements -/

theorem demand_statement {k : Kind} (h : k.form? = some .expression) :
    Goal.statement.demand (some k) =
      some ((Demand.expression (some k)).andThen [.token .semicolon]) := by
  cases k <;> first | rfl | cases h

/-- Where a statement stands, a list of statements asks for it. -/
theorem DerivesPhrase.demand_statements {ts : List Token} {s : Statement}
    (h : DerivesPhrase .statement ts s) {stop : Option Kind}
    (hstop : stop = none ∨ stop = some .closeBrace) (rest : List Token) (gs : List Goal) :
    demandOf (.statements stop :: gs) (nextKind (ts ++ rest)) =
      demandOf (.statement :: .statements stop :: gs) (nextKind (ts ++ rest)) := by
  refine demandOf_statements ?_ gs
  obtain ⟨t, us, rfl, ht⟩ := h.head_statement
  rw [List.cons_append, nextKind_cons]
  rintro (heq | heq)
  · cases heq
  · rcases hstop with rfl | rfl
    · cases heq
    · rw [Option.some.inj heq] at ht
      cases ht

/-- The goal of a phrase. A body goes on up to a token of the kind `stop`. -/
def Category.goal (stop : Option Kind) : Category → Goal
  | statement => .statement
  | block => .block
  | body => .statements stop
  | branch => .branch
  | alternate => .alternate

/-- What may come after a phrase, if bodies go on up to a token of the kind `stop`. -/
def Category.EndsBy (stop : Option Kind) : Category → Option Kind → Prop
  | body, next? => next? = none ∨ next? = stop
  | c, next? => c.Ends next?

theorem DerivesPhrase.passes {c : Category} {ts : List Token} {x : c.Tree}
    (h : DerivesPhrase c ts x) :
    ∀ {stop : Option Kind} (rest : List Token) (gs : List Goal),
      stop = none ∨ stop = some .closeBrace → c.EndsBy stop (nextKind rest) →
      Passes (c.goal stop :: gs) ts rest gs := by
  induction h with
  | @expression ts s e he hs =>
    intro stop rest gs _ _
    have hnext : nextKind (s :: rest) ≠ some .operator := nextKind_ne hs (by decide) rest
    have hpass := (he.passes (.token .semicolon :: gs) hnext).trans (.token hs gs rest)
    obtain ⟨t, us, rfl, ht⟩ := he.head
    exact Passes.congr (demandOf_split (demand_statement ht) rfl gs) hpass
  | block hb ih =>
    intro stop rest gs hstop hend
    refine Passes.same ?_ (ih rest gs hstop trivial)
    obtain ⟨o, us, rfl, ho⟩ := hb.head_block
    rw [List.cons_append, nextKind_cons, ho]
    rfl
  | function hf hn hp _ ih =>
    intro stop rest gs hstop hend
    rw [List.cons_append, List.cons_append]
    exact Passes.demanded hf rfl (.cons hn (.trans (hp.passes _ _) (ih rest gs hstop trivial)))
  | conditional hb ih =>
    intro stop rest gs hstop hend
    refine Passes.same ?_ (ih rest gs hstop hend)
    obtain ⟨i, us, rfl, hi⟩ := hb.head_branch
    rw [List.cons_append, nextKind_cons, hi]
    rfl
  | forOf hf ho hl hx hw hy hc _ ih =>
    intro stop rest gs hstop hend
    refine Passes.demanded hf rfl (.cons ho (.cons hl (.cons hx (.cons hw (.cons hy ?_)))))
    exact .cons hc (ih rest gs hstop trivial)
  | braces ho _ hc ih =>
    intro stop rest gs _ _
    have hclose : nextKind (_ :: rest) = some .closeBrace := congrArg some hc
    have hbody := ih _ (.token .closeBrace :: gs) (.inr rfl) (.inr hclose)
    exact Passes.demanded ho rfl (.trans hbody (.token hc gs rest))
  | nil =>
    intro stop rest gs _ hend
    refine Passes.absent ?_
    exact if_pos hend
  | cons hs hb ihs ihb =>
    intro stop rest gs hstop hend
    have hrest : nextKind rest ≠ some .elseWord := by
      rcases hend with hend | hend
      · rw [hend]
        nofun
      · rw [hend]
        rcases hstop with rfl | rfl <;> nofun
    have hstatement := ihs _ (.statements stop :: gs) hstop (hb.statement_ends hrest)
    refine Passes.congr ?_ (hstatement.trans (ihb rest gs hstop hend))
    rw [List.append_assoc]
    exact hs.demand_statements hstop _ gs
  | @branch i o c ts us vs e b a hi ho he hc _ _ ihb iha =>
    intro stop rest gs hstop hend
    have hblock := (ihb _ (.alternate :: gs) hstop trivial).trans (iha rest gs hstop hend)
    have htail : Passes (.token .closeParen :: .block :: .alternate :: gs) (c :: (us ++ vs))
        rest gs := .cons hc hblock
    have hnext : nextKind (c :: (us ++ vs) ++ rest) ≠ some .operator := nextKind_ne hc (by decide) _
    have hbranch := (he.passes _ hnext).trans htail
    have htokens : i :: o :: ts ++ c :: us ++ vs = i :: o :: (ts ++ c :: (us ++ vs)) := by simp
    rw [htokens]
    exact Passes.demanded hi rfl (.cons ho hbranch)
  | absent =>
    intro stop rest gs _ hend
    refine Passes.absent ?_
    exact if_neg hend
  | elseBlock hw hb ih =>
    intro stop rest gs hstop hend
    have hblock := ih rest gs hstop trivial
    obtain ⟨o, us, rfl, ho⟩ := hb.head_block
    refine Passes.demanded hw rfl (Passes.same ?_ hblock)
    rw [List.cons_append, nextKind_cons, ho]
    rfl
  | elseBranch hw hb ih =>
    intro stop rest gs hstop hend
    have hbranch := ih rest gs hstop hend
    obtain ⟨i, us, rfl, hi⟩ := hb.head_branch
    refine Passes.demanded hw rfl (Passes.same ?_ hbranch)
    rw [List.cons_append, nextKind_cons, hi]
    rfl

/-- A body passes up to where no statement goes on with `else`, and more statements may come. -/
theorem DerivesPhrase.passes_body {ts : List Token} {b : List Statement}
    (h : DerivesPhrase .body ts b) {rest : List Token} (hrest : nextKind rest ≠ some .elseWord) :
    Passes [.statements none] ts rest [.statements none] := by
  induction b generalizing ts with
  | nil =>
    cases h with
    | nil => exact .refl _ rest
  | cons s b ih =>
    cases h with
    | cons hs hb =>
      have hstatement := hs.passes _ [.statements none] (.inl rfl) (hb.statement_ends hrest)
      refine Passes.congr ?_ (hstatement.trans (ih hb))
      rw [List.append_assoc]
      exact hs.demand_statements (.inl rfl) _ []

theorem Derives.passes_on {ts : List Token} {p : Program} (h : Derives ts p) {rest : List Token}
    (hrest : nextKind rest ≠ some .elseWord) :
    Passes programGoals ts rest [.statements none] := by
  obtain ⟨b⟩ := p
  obtain ⟨hbody, hne⟩ := h
  cases hbody with
  | nil => exact absurd rfl hne
  | @cons ts us s b hs hb =>
    refine Passes.congr ?_ ((DerivesPhrase.cons hs hb).passes_body hrest)
    rw [List.append_assoc]
    exact (hs.demand_statements (.inl rfl) _ []).symm

/-- The tokens of a program pass, up to the end of the text. -/
theorem Derives.passes {ts : List Token} {p : Program} (h : Derives ts p) :
    Passes programGoals ts [] [] := by
  have hon : Passes programGoals ts ([] ++ []) [.statements none] := h.passes_on nofun
  have hend : Passes [.statements none] [] [] [] := .absent rfl
  simpa using hon.trans hend

end Scriptlet
