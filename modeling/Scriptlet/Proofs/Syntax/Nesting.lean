import Scriptlet.Proofs.Syntax.Expressible
import Scriptlet.Proofs.Syntax.ReadingExpression

/-!
# Scriptlet.Proofs.Syntax.Nesting

Chains of operators as the grammar nests them:

* `State.nested s`           — an expression read by recursion: after an operand and an operator
                               comes a whole expression.
* `State.nestedAfter l s h`  — the same from after the operand `l`.
* `Expression.nestsRight`    — only right operands hold operators or declarations.
* `Step.Gives P x`           — if `x` succeeds, its value and the state after it are as `P` says.

The parser reads a chain in a loop. `chain_eq` is the invariant of the loop: what it still reads is
what the recursion reads from after the last operand, and the operands before it are put around
that. A declaration that stands as an operand ends the chain, since no operator is left after an
expression (`nested_ends`).
-/

namespace Scriptlet

/-- Whether the left operand of each operator is a leaf. -/
def Expression.nestsRight : Expression → Bool
  | .binary _ left right => left.isLeaf && right.nestsRight
  | .declaration _ value => value.nestsRight
  | _ => true

namespace State

/-- An expression as the grammar gives it. -/
def nested (s : State) : Step s Expression :=
  if s.check .letWord then
    (s.eat .letWord).andThen fun _ s₁ _ =>
    s₁.name.andThen fun name s₂ _ =>
    (s₂.eat .assign).andThen fun _ s₃ _ =>
    s₃.nested.map fun value => .declaration name value
  else
    match s.literal with
    | .failed fault stop => .failed fault stop
    | .done left s₁ h₁ =>
      if s₁.check .operator then
        (s₁.operator.andThen fun operator s₂ _ =>
          s₂.nested.map fun right => .binary operator left right).weaken (Nat.le_of_lt h₁)
      else .done left s₁ h₁
termination_by s.remaining

/-- An operand, with the operator and the expression after it if there are any. -/
def nestedAfter {s₀ : State} (left : Expression) (s : State) (h : s.remaining < s₀.remaining) :
    Step s₀ Expression :=
  if s.check .operator then
    (s.operator.andThen fun operator s₁ _ =>
      s₁.nested.map fun right => .binary operator left right).weaken (Nat.le_of_lt h)
  else .done left s h

end State

/-! ## Where an expression ends -/

def Step.Gives {s : State} {α : Type} (P : α → State → Prop) : Step s α → Prop
  | .done value next _ => P value next
  | .failed _ _ => True

namespace Step.Gives

variable {s s₀ : State} {α β : Type} {P : α → State → Prop} {Q : β → State → Prop} {x : Step s α}

theorem of_forall (h : ∀ v next, P v next) : x.Gives P := by
  cases x with
  | done v next shorter => exact h v next
  | failed f stop => trivial

theorem imp {P' : α → State → Prop} (h : ∀ v next, P v next → P' v next) (hx : x.Gives P) :
    x.Gives P' := by
  cases x with
  | done v next shorter => exact h v next hx
  | failed f stop => trivial

theorem map {f : α → β} (hx : x.Gives fun v => Q (f v)) : (x.map f).Gives Q := by
  cases x with
  | done v next shorter => exact hx
  | failed f stop => trivial

theorem weaken {h : s.remaining ≤ s₀.remaining} (hx : x.Gives P) : (x.weaken h).Gives P := by
  cases x with
  | done v next shorter => exact hx
  | failed f stop => trivial

theorem andThen {f : (v : α) → (next : State) → next.remaining < s.remaining → Step next β}
    (h : ∀ v next shorter, (f v next shorter).Gives Q) : (x.andThen f).Gives Q := by
  cases x with
  | failed e stop => trivial
  | done v next shorter =>
    have hv := h v next shorter
    simp only [Step.andThen]
    cases hval : f v next shorter with
    | failed e stop => trivial
    | done w last shorter' => rwa [hval] at hv

theorem meaning {x : Step s Token} {k : Kind} {read : String → Option α}
    (h : ∀ l v next, read l = some v → P v next) : (State.meaning k read x).Gives P := by
  cases x with
  | failed f stop => trivial
  | done t next shorter =>
    simp only [State.meaning]
    cases hread : read t.lexeme with
    | none => trivial
    | some v => exact h t.lexeme v next hread

end Step.Gives

theorem Step.weaken_weaken {s s₀ s₁ : State} {α : Type} (x : Step s α)
    (h : s.remaining ≤ s₁.remaining) (h₁ : s₁.remaining ≤ s₀.remaining) :
    (x.weaken h).weaken h₁ = x.weaken (Nat.le_trans h h₁) := by
  cases x <;> rfl

theorem Step.andThen_congr {s : State} {α β : Type} {x : Step s α}
    {f g : (v : α) → (next : State) → next.remaining < s.remaining → Step next β}
    (h : ∀ v next shorter, f v next shorter = g v next shorter) : x.andThen f = x.andThen g := by
  cases x with
  | done v next shorter => simp only [Step.andThen, h]
  | failed e stop => rfl

namespace State

theorem literal_isLeaf (s : State) : s.literal.Gives fun e _ => e.isLeaf = true := by
  unfold literal
  split
  · refine .meaning fun l e _ he => ?_
    obtain ⟨x, -, rfl⟩ := Option.map_eq_some_iff.1 he
    rfl
  · exact .map (.of_forall fun _ _ => rfl)
  · exact .map (.of_forall fun _ _ => rfl)
  · exact .map (.of_forall fun _ _ => rfl)

theorem nested_of_let {s : State} (h : s.check .letWord = true) :
    s.nested = (s.eat .letWord).andThen fun _ s₁ _ =>
      s₁.name.andThen fun name s₂ _ =>
      (s₂.eat .assign).andThen fun _ s₃ _ =>
      s₃.nested.map fun value => .declaration name value := by
  rw [nested, if_pos h]

theorem nested_of_done {s s₁ : State} {left : Expression} {h₁ : s₁.remaining < s.remaining}
    (hlet : ¬ s.check .letWord = true) (h : s.literal = .done left s₁ h₁) :
    s.nested = nestedAfter left s₁ h₁ := by
  rw [nested, if_neg hlet, h]
  rfl

theorem nested_of_failed {s stop : State} {f : Fault} (hlet : ¬ s.check .letWord = true)
    (h : s.literal = .failed f stop) : s.nested = .failed f stop := by
  rw [nested, if_neg hlet, h]

/-- An expression nests to the right and takes all operators that follow. -/
theorem nested_ends (s : State) :
    s.nested.Gives fun e next => e.nestsRight = true ∧ next.check .operator = false := by
  by_cases hlet : s.check .letWord = true
  · rw [nested_of_let hlet]
    refine .andThen fun _ s₁ h₁ => .andThen fun _ s₂ h₂ => .andThen fun _ s₃ h₃ => ?_
    exact .map s₃.nested_ends
  · have hleaf := s.literal_isLeaf
    cases hx : s.literal with
    | failed f stop =>
      rw [nested_of_failed hlet hx]
      trivial
    | done left s₁ h₁ =>
      rw [hx] at hleaf
      replace hleaf : left.isLeaf = true := hleaf
      rw [nested_of_done hlet hx, nestedAfter]
      split
      · refine .weaken (.andThen fun o s₂ h₂ => .map (.imp ?_ s₂.nested_ends))
        intro right next hright
        exact ⟨by simp [Expression.nestsRight, hleaf, hright.1], hright.2⟩
      · rename_i hend
        refine ⟨?_, by simpa using hend⟩
        cases left <;> first | rfl | cases hleaf
termination_by s.remaining

/-! ## The loop -/

/-- Where an expression began says nothing about what is read from after its first operand. -/
theorem nestedAfter_weaken {s₀ s₁ s : State} (left : Expression) (h : s.remaining < s₁.remaining)
    (h₀ : s.remaining < s₀.remaining) (hle : s₁.remaining ≤ s₀.remaining) :
    nestedAfter left s h₀ = (nestedAfter left s h).weaken hle := by
  rw [nestedAfter, nestedAfter]
  split
  · rw [Step.weaken_weaken]
  · rfl

mutual

theorem expression_eq (s : State) : s.expression = s.nested := by
  rw [expression]
  by_cases hlet : s.check .letWord = true
  · rw [if_pos hlet]
    exact declaration_eq hlet
  · rw [if_neg hlet]
    cases hx : s.literal with
    | failed f stop => exact (nested_of_failed hlet hx).symm
    | done left s₁ h₁ =>
      rw [nested_of_done hlet hx]
      refine (chain_eq [] left s₁ h₁).trans ?_
      cases nestedAfter left s₁ h₁ <;> rfl
termination_by (s.remaining, 1)

theorem declaration_eq {s : State} (hlet : s.check .letWord = true) :
    s.declaration = s.nested := by
  rw [declaration, nested_of_let hlet]
  refine Step.andThen_congr fun _ s₁ h₁ => Step.andThen_congr fun _ s₂ h₂ =>
    Step.andThen_congr fun _ s₃ h₃ => ?_
  rw [s₃.expression_eq]
termination_by (s.remaining, 0)

/-- What the loop still reads is read by recursion, and put behind the operands before it. -/
theorem chain_eq {s₀ : State} (before : List (Expression × Operator)) (last : Expression)
    (s : State) (h : s.remaining < s₀.remaining) :
    chain s₀ before last s h = (nestedAfter last s h).map fun e => foldChain e before := by
  by_cases hop : s.check .operator = true
  · rw [chain, nestedAfter, if_pos hop, if_pos hop]
    cases s.operator with
    | failed f stop => rfl
    | done operator s₁ h₁ =>
      by_cases hlet : s₁.check .letWord = true
      · simp only [if_pos hlet, declaration_eq hlet, Step.andThen]
        have hends := s₁.nested_ends
        cases hx : s₁.nested with
        | failed f stop => rfl
        | done operand s₂ h₂ =>
          -- A declaration leaves no operator, so the loop ends after it.
          rw [hx] at hends
          have hend : ¬ s₂.check .operator = true := by simpa using hends.2
          exact chain_end hend
      · simp only [if_neg hlet, Step.andThen]
        cases hx : s₁.literal with
        | failed f stop =>
          rw [nested_of_failed hlet hx]
          rfl
        | done operand s₂ h₂ =>
          rw [nested_of_done hlet hx]
          refine (chain_eq ((last, operator) :: before) operand s₂ _).trans ?_
          rw [nestedAfter_weaken operand h₂ _ (Nat.le_of_lt (Nat.lt_trans h₁ h))]
          cases nestedAfter operand s₂ h₂ <;> rfl
  · rw [chain_end hop, nestedAfter, if_neg hop]
    rfl
termination_by (s.remaining, 2)

end

end State

/-- Reading a chain in a loop is reading the grammar by recursion: with the same result, the same
fault and the same state after it, from every state. The operators of an expression nest to the
right, and none is left after it, so a declaration takes the rest of the chain. -/
theorem expression_eq_nested (s : State) :
    s.expression = s.nested ∧
      s.expression.Gives fun e next => e.nestsRight = true ∧ next.check .operator = false := by
  refine ⟨s.expression_eq, ?_⟩
  rw [s.expression_eq]
  exact s.nested_ends

end Scriptlet
