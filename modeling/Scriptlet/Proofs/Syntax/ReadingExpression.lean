import Scriptlet.Proofs.Syntax.Reading

/-!
# Scriptlet.Proofs.Syntax.ReadingExpression

The parser of expressions against the agenda `[.expression]` and the relation `DerivesExpression`.
The three lemmas follow the three functions and rest on the same measure.

A chain is read from after one of its operands. If that operand is a leaf, the chain and the leaf
are an expression; a declaration takes all operators after it, so the chain is at its end then.
-/

namespace Scriptlet

/-- What an expression is read from, and where it ends. -/
def ReadsExpression (read : List Token) (next? : Option Kind) (e : Expression) : Prop :=
  DerivesExpression read e ∧ next? ≠ some .operator

namespace State

theorem chain_end {s₀ s : State} {before : List (Expression × Operator)} {last : Expression}
    {h : s.remaining < s₀.remaining} (hend : ¬ s.check .operator = true) :
    chain s₀ before last s h = .done (foldChain last before) s h := by
  rw [chain, if_neg hend]

mutual

theorem expression_meets {s : State} (h : s.Ready) :
    Meets [.expression] s.feed ReadsExpression s.expression := by
  rw [expression]
  by_cases hlet : s.check .letWord = true
  · rw [if_pos hlet]
    exact declaration_meets h hlet
  · rw [if_neg hlet]
    refine Meets.demanded (demand_expression (h.ne_of_not_check hlet)) ?_
    refine Meets.follow (literal_meets h) ?_ ?_
    · intro f stop hx
      rw [hx]
    · intro e s₁ h₁ read hx hready hleaf
      obtain ⟨t, rfl, ht⟩ := hleaf
      simp only [hx]
      refine Meets.imp ?_ (chain_meets hready [] ht h₁)
      intro ts next? _ hread
      obtain ⟨hend, x, hder, rfl⟩ := hread
      exact ⟨hder, hend⟩
termination_by (s.remaining, 1)

theorem declaration_meets {s : State} (h : s.Ready) (hlet : s.check .letWord = true) :
    Meets [.expression] s.feed ReadsExpression s.declaration := by
  refine Meets.taken (h.check_iff.1 hlet) rfl ?_
  rw [declaration]
  refine Meets.seq (eat_meets h .letWord) ?_
  intro _ s₁ h₁ _ hready₁ hread
  obtain ⟨rfl, hd, -⟩ := hread
  refine Meets.seq (name_meets hready₁) ?_
  intro _ s₂ h₂ _ hready₂ hread
  obtain ⟨n, rfl, hn, rfl⟩ := hread
  refine Meets.seq (eat_meets hready₂ .assign) ?_
  intro _ s₃ h₃ _ hready₃ hread
  obtain ⟨rfl, ha, -⟩ := hread
  refine Meets.map (Meets.imp ?_ (expression_meets hready₃))
  intro ts next? v hread
  obtain ⟨hv, hend⟩ := hread
  exact ⟨.declaration hd hn ha hv, hend⟩
termination_by (s.remaining, 0)

theorem chain_meets {s₀ s : State} (hready : s.Ready) (before : List (Expression × Operator))
    {t : Token} {last : Expression} (ht : Leaf t last) (h : s.remaining < s₀.remaining) :
    Meets [.chain] s.feed
      (fun read next? e => next? ≠ some .operator ∧
        ∃ x, DerivesExpression (t :: read) x ∧ e = foldChain x before)
      (chain s₀ before last s h) := by
  by_cases hop : s.check .operator = true
  · refine Meets.taken (hready.check_iff.1 hop) rfl ?_
    rw [chain, if_pos hop]
    refine Meets.follow (operator_meets hready) ?_ ?_
    · intro f stop hx
      rw [hx]
    · intro op s₁ h₁ read hx hready₁ hread
      obtain ⟨o, p, rfl, ho, hp, rfl⟩ := hread
      simp only [hx]
      by_cases hlet : s₁.check .letWord = true
      · simp only [if_pos hlet]
        -- A declaration leaves no operator, so the chain ends after it.
        have hdecl := declaration_meets hready₁ hlet
        cases hx₁ : s₁.declaration with
        | failed f stop =>
          rw [hx₁] at hdecl
          exact hdecl
        | done operand s₂ h₂ =>
          rw [hx₁] at hdecl
          obtain ⟨hready₂, ts, hfeed, ⟨hder, hend⟩, hpass⟩ := hdecl
          have hop₂ : ¬ s₂.check .operator = true := fun hc => hend (hready₂.check_iff.1 hc)
          simp only [chain_end hop₂]
          exact ⟨hready₂, ts, hfeed, ⟨hend, _, .binary ht ho hp hder, rfl⟩, hpass⟩
      · simp only [if_neg hlet]
        refine Meets.demanded (demand_expression (hready₁.ne_of_not_check hlet)) ?_
        refine Meets.follow (literal_meets hready₁) ?_ ?_
        · intro f stop hx₁
          rw [hx₁]
        · intro operand s₂ h₂ read₁ hx₁ hready₂ hread₁
          obtain ⟨t', rfl, ht'⟩ := hread₁
          simp only [hx₁]
          refine Meets.imp ?_ (chain_meets hready₂ _ ht' _)
          intro ts next? _ hread
          obtain ⟨hend, x, hder, rfl⟩ := hread
          exact ⟨hend, _, .binary ht ho hp hder, rfl⟩
  · rw [chain_end hop]
    have hnext := hready.ne_of_not_check hop
    refine Meets.absent hready ?_ ⟨hnext, last, .leaf ht, rfl⟩
    rw [Goal.demand, if_neg hnext]
termination_by (s.remaining, 2)

end

end State

end Scriptlet
