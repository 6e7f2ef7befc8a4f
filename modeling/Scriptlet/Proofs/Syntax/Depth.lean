import Scriptlet.Proofs.Syntax.Progress

/-!
# Scriptlet.Proofs.Syntax.Depth

How deep the parts of the parser call one another.

* `Bounded α`             — a part of the parser with a bound on how many calls and passes of loops
                            may be open at a time. It has no result where the bound is too low.
* `Bounded.expression d`  — the part for expressions with the bound `d`, and so for the others.
                            Nothing in them says that a text gets shorter.
* `Bounded.parse d`       — the reading of a whole text with the bound `d`.
* `Bounded.Does m s x`    — begun in `s`, the bounded part `m` has a result, and it is that of `x`.
* `State.EndsWithin d s`  — from `s` on, each part with the bound `d` does what it does without one.

Between one token and the next there are at most four calls, from a list of statements to a
statement, an expression and a declaration, so four for each token to come and four more suffice.
-/

namespace Scriptlet

/-- How a step ends, without the proof that less remains. -/
def Step.outcome {s : State} {α : Type} : Step s α → Except Fault α × State
  | .done value next _ => (.ok value, next)
  | .failed fault stop => (.error fault, stop)

abbrev Bounded (α : Type) := ExceptT Fault (StateT State Option) α

namespace Bounded

def outOfCalls {α : Type} : Bounded α := fun _ => none

/-- A part that is neither recursive nor a loop. -/
def part {α : Type} (x : (s : State) → Step s α) : Bounded α := fun s => some (x s).outcome

def eat (k : Kind) : Bounded Token := part fun s => s.eat k

/-! ## The parts with a bound -/

mutual

def expression : Nat → Bounded Expression
  | 0 => outOfCalls
  | d + 1 => do
    if (← get).check .letWord then declaration d
    else
      let value ← part State.literal
      chain d [] value

def declaration : Nat → Bounded Expression
  | 0 => outOfCalls
  | d + 1 => do
    let _ ← eat .letWord
    let name ← part State.name
    let _ ← eat .assign
    let value ← expression d
    return .declaration name value

def chain : Nat → List (Expression × Operator) → Expression → Bounded Expression
  | 0, _, _ => outOfCalls
  | d + 1, before, last => do
    if (← get).check .operator then
      let operator ← part State.operator
      let operand ← (do if (← get).check .letWord then declaration d else part State.literal)
      chain d ((last, operator) :: before) operand
    else return foldChain last before

end

def parametersFrom : Nat → List String → Bounded (List String)
  | 0, _ => outOfCalls
  | d + 1, read => do
    if (← get).check .closeParen then
      let _ ← eat .closeParen
      return read.reverse
    else
      let name ← part State.parameter
      parametersFrom d (name :: read)

def parameters (d : Nat) : Bounded (List String) := do
  let _ ← eat .openParen
  parametersFrom d []

def expressionStatement (d : Nat) : Bounded Statement := do
  let value ← expression d
  let _ ← eat .semicolon
  return .expression value

mutual

def statement : Nat → Bounded Statement
  | 0 => outOfCalls
  | d + 1 => do
    match (← get).kind? with
    | some .openBrace => return .block (← block d)
    | some .forWord => forOf d
    | some .ifWord => return .conditional (← conditional d)
    | some .functionWord => function d
    | _ => expressionStatement d

def statements : Nat → Option Kind → Bounded (List Statement)
  | 0, _ => outOfCalls
  | d + 1, stop => do
    let value ← statement d
    statementsFrom d stop [value]

def statementsFrom : Nat → Option Kind → List Statement → Bounded (List Statement)
  | 0, _, _ => outOfCalls
  | d + 1, stop, read => do
    if (← get).endsList stop then return read.reverse
    else
      let value ← statement d
      statementsFrom d stop (value :: read)

def block : Nat → Bounded (List Statement)
  | 0 => outOfCalls
  | d + 1 => do
    let _ ← eat .openBrace
    if (← get).endsList (some .closeBrace) then
      let _ ← eat .closeBrace
      return []
    else
      let body ← statements d (some .closeBrace)
      let _ ← eat .closeBrace
      return body

def function : Nat → Bounded Statement
  | 0 => outOfCalls
  | d + 1 => do
    let _ ← eat .functionWord
    let name ← part State.name
    let parameters ← parameters d
    let body ← block d
    return .function name parameters body

def conditional : Nat → Bounded Branch
  | 0 => outOfCalls
  | d + 1 => do
    let _ ← eat .ifWord
    let _ ← eat .openParen
    let test ← expression d
    let _ ← eat .closeParen
    let consequent ← block d
    if (← get).check .elseWord then
      let _ ← eat .elseWord
      let alternate ← (do
        if (← get).check .ifWord then return .branch (← conditional d)
        else return .block (← block d))
      return .mk test consequent alternate
    else return .mk test consequent .absent

def forOf : Nat → Bounded Statement
  | 0 => outOfCalls
  | d + 1 => do
    let _ ← eat .forWord
    let _ ← eat .openParen
    let _ ← eat .letWord
    let element ← part State.name
    let _ ← eat .ofWord
    let collection ← part State.name
    let _ ← eat .closeParen
    let body ← block d
    return .forOf collection element body

end

def program (d : Nat) : Bounded Program := do
  let body ← statements d none
  return ⟨body⟩

def parse (d : Nat) (source : String) : Option (Except Fault Program) :=
  match State.prime source.toList with
  | .error fault => some (.error (.lexical fault))
  | .ok s => ((program d).run.run s).map Prod.fst

/-! ## Doing the same -/

def Does {α : Type} (m : Bounded α) (s : State) {s₀ : State} (x : Step s₀ α) : Prop :=
  m.run.run s = some x.outcome

namespace Does

variable {s s₀ s₁ : State} {α β : Type} {m : Bounded α} {f : α → Bounded β} {x : Step s₀ α}

theorem part (x : (s : State) → Step s α) (s : State) : (Bounded.part x).Does s (x s) := rfl

theorem eat (s : State) (k : Kind) : (Bounded.eat k).Does s (s.eat k) := rfl

theorem return_done {v : α} {h : s.remaining < s₀.remaining} :
    (pure v : Bounded α).Does s (Step.done v s h) := rfl

theorem get {f : State → Bounded α} (h : (f s).Does s x) : (MonadState.get >>= f).Does s x := h

theorem weaken {h : s₀.remaining ≤ s₁.remaining} (hm : m.Does s x) : m.Does s (x.weaken h) := by
  cases x <;> exact hm

/-- A part `y` that begins with the part `x`, and fails as `x` does. -/
theorem follow {y : Step s₁ β} (hm : m.Does s x)
    (hfailed : ∀ fault stop, x = .failed fault stop → y = .failed fault stop)
    (hdone : ∀ v next h, x = .done v next h → (f v).Does next y) : (m >>= f).Does s y := by
  unfold Does at hm ⊢
  cases x with
  | failed fault stop =>
    rw [hfailed fault stop rfl, ExceptT.run_bind, StateT.run_bind, hm]
    rfl
  | done v next h =>
    rw [ExceptT.run_bind, StateT.run_bind, hm]
    exact hdone v next h rfl

theorem map {g : α → β} (hm : m.Does s x) :
    (m >>= fun v => pure (g v) : Bounded β).Does s (x.map g) := by
  refine hm.follow ?_ ?_
  · rintro fault stop rfl
    rfl
  · rintro v next h rfl
    exact return_done

theorem andThen {x : Step s α}
    {g : (v : α) → (next : State) → next.remaining < s.remaining → Step next β}
    (hm : m.Does s x) (hx : x.Spends s)
    (hf : ∀ v next h, next.toCome < s.toCome → (f v).Does next (g v next h)) :
    (m >>= f).Does s (x.andThen g) := by
  refine hm.follow ?_ ?_
  · rintro fault stop rfl
    rfl
  · rintro v next h rfl
    have hg := hf v next h hx
    simp only [Step.andThen]
    cases hval : g v next h with
    | done w last h' => rwa [hval] at hg
    | failed fault stop => rwa [hval] at hg

theorem resume {x : Step s α} {h : s.remaining < s₀.remaining}
    {g : (v : α) → (next : State) → next.remaining < s₀.remaining → Step s₀ β}
    (hm : m.Does s x) (hx : x.Spends s)
    (hf : ∀ v next h', next.toCome < s.toCome → (f v).Does next (g v next h')) :
    (m >>= f).Does s (x.resume h g) := by
  refine hm.follow ?_ ?_
  · rintro fault stop rfl
    rfl
  · rintro v next h' rfl
    exact hf v next _ hx

end Does

/-! ## A bound that is high enough -/

open State

theorem eat_spends (s : State) (k : Kind) : (s.eat k).Spends s := (s.eat_moves k).spends

theorem name_spends (s : State) : s.name.Spends s := s.name_moves.spends

-- A part that takes a token before it calls another one needs four for each token to come, since
-- one that begins after it may need three more. Those that call another part at once need one more
-- than that part.

mutual

theorem expression_does {d : Nat} {s : State} (h : 4 * s.toCome + 1 < d) :
    (expression d).Does s s.expression := by
  cases d with
  | zero => omega
  | succ d =>
    rw [expression, State.expression]
    refine Does.get ?_
    split
    · exact declaration_does (by omega)
    · refine (Does.part literal s).follow ?_ ?_
      · intro fault stop hx
        rw [hx]
      · intro value next h hx
        have hlt := s.literal_moves.spends.lt hx
        rw [hx]
        exact chain_does [] value h (by omega)
termination_by d

theorem declaration_does {d : Nat} {s : State} (h : 4 * s.toCome < d) :
    (declaration d).Does s s.declaration := by
  cases d with
  | zero => omega
  | succ d =>
    rw [declaration, State.declaration]
    refine (Does.eat s _).andThen (eat_spends s _) fun _ s₁ _ h₁ => ?_
    refine (Does.part name s₁).andThen (name_spends s₁) fun name s₂ _ h₂ => ?_
    refine (Does.eat s₂ _).andThen (eat_spends s₂ _) fun _ s₃ _ h₃ => ?_
    exact (expression_does (by omega)).map
termination_by d

theorem chain_does {d : Nat} {s₀ s : State} (before : List (Expression × Operator))
    (last : Expression) (hs : s.remaining < s₀.remaining) (h : 4 * s.toCome < d) :
    (chain d before last).Does s (State.chain s₀ before last s hs) := by
  cases d with
  | zero => omega
  | succ d =>
    rw [chain, State.chain]
    refine Does.get ?_
    split
    · refine (Does.part operator s).follow ?_ ?_
      · intro fault stop hx
        rw [hx]
      · intro operator s₁ h₁ hx
        have hlt := s.operator_moves.spends.lt hx
        have hoperand : (get >>= fun u => if u.check .letWord then declaration d
            else part literal : Bounded Expression).Does s₁ s₁.operand := by
          refine Does.get ?_
          unfold operand
          split
          · exact declaration_does (by omega)
          · exact Does.part literal s₁
        simp only [hx, operand_eq]
        refine hoperand.follow ?_ ?_
        · intro fault stop hx₁
          rw [hx₁]
        · intro operand s₂ h₂ hx₁
          have hlt₁ := s₁.operand_moves.spends.lt hx₁
          rw [hx₁]
          exact chain_does _ operand _ (by omega)
    · exact Does.return_done
termination_by d

end

theorem parametersFrom_does {d : Nat} {s₀ s : State} (read : List String)
    (hs : s.remaining < s₀.remaining) (h : 4 * s.toCome < d) :
    (parametersFrom d read).Does s (State.parametersFrom s₀ read s hs) := by
  induction d generalizing s read with
  | zero => omega
  | succ d ih =>
    rw [parametersFrom]
    refine Does.get ?_
    by_cases hclose : s.check .closeParen = true
    · rw [if_pos hclose, State.parametersFrom, if_pos hclose]
      refine (Does.eat s _).follow ?_ ?_
      · intro fault stop hx
        rw [hx]
      · intro _ s₁ h₁ hx
        rw [hx]
        exact Does.return_done
    · rw [if_neg hclose, parametersFrom_again hclose]
      refine (Does.part parameter s).resume (parameter_spends s) fun name s₁ h₁ hlt => ?_
      exact ih _ _ (by omega)

theorem parameters_does {d : Nat} {s : State} (h : 4 * s.toCome < d) :
    (parameters d).Does s s.parameters := by
  rw [parameters, State.parameters]
  refine (Does.eat s _).follow ?_ ?_
  · intro fault stop hx
    rw [hx]
  · intro _ s₁ h₁ hx
    have hlt := (eat_spends s _).lt hx
    rw [hx]
    exact parametersFrom_does [] h₁ (by omega)

theorem expressionStatement_does {d : Nat} {s : State} (h : 4 * s.toCome + 1 < d) :
    (expressionStatement d).Does s s.expressionStatement := by
  refine (expression_does h).andThen s.expression_moves.spends fun value s₁ _ _ => ?_
  exact (Does.eat s₁ _).map

mutual

theorem statement_does {d : Nat} {s : State} (h : 4 * s.toCome + 2 < d) :
    (statement d).Does s s.statement := by
  cases d with
  | zero => omega
  | succ d =>
    rw [statement, State.statement]
    refine Does.get ?_
    cases s.kind? with
    | none => exact expressionStatement_does (by omega)
    | some k =>
      cases k with
      | openBrace => exact (block_does (by omega)).map
      | forWord => exact forOf_does (by omega)
      | ifWord => exact (conditional_does (by omega)).map
      | functionWord => exact function_does (by omega)
      | _ => exact expressionStatement_does (by omega)
termination_by d

theorem statements_does {d : Nat} {s : State} (stop : Option Kind) (h : 4 * s.toCome + 3 < d) :
    (statements d stop).Does s (s.statements stop) := by
  cases d with
  | zero => omega
  | succ d =>
    rw [statements, State.statements]
    refine (statement_does (by omega)).follow ?_ ?_
    · intro fault stop hx
      rw [hx]
    · intro value s₁ h₁ hx
      have hlt := (statement_spends s).lt hx
      rw [hx]
      exact statementsFrom_does stop _ h₁ (by omega)
termination_by d

theorem statementsFrom_does {d : Nat} {s₀ s : State} (stop : Option Kind) (read : List Statement)
    (hs : s.remaining < s₀.remaining) (h : 4 * s.toCome + 3 < d) :
    (statementsFrom d stop read).Does s (State.statementsFrom s₀ stop read s hs) := by
  cases d with
  | zero => omega
  | succ d =>
    rw [statementsFrom]
    refine Does.get ?_
    by_cases hends : s.endsList stop = true
    · rw [if_pos hends, State.statementsFrom, if_pos hends]
      exact Does.return_done
    · rw [if_neg hends, statementsFrom_again hends]
      refine (statement_does (by omega)).resume (statement_spends s) fun value s₁ h₁ hlt => ?_
      exact statementsFrom_does stop _ h₁ (by omega)
termination_by d

theorem block_does {d : Nat} {s : State} (h : 4 * s.toCome < d) : (block d).Does s s.block := by
  cases d with
  | zero => omega
  | succ d =>
    rw [block, State.block]
    refine (Does.eat s _).andThen (eat_spends s _) fun _ s₁ _ h₁ => Does.get ?_
    split
    · exact (Does.eat s₁ _).map
    · refine (statements_does _ (by omega)).andThen (s₁.statements_moves _).spends
        fun body s₂ _ h₂ => ?_
      exact (Does.eat s₂ _).map
termination_by d

theorem function_does {d : Nat} {s : State} (h : 4 * s.toCome < d) :
    (function d).Does s s.function := by
  cases d with
  | zero => omega
  | succ d =>
    rw [function, State.function]
    refine (Does.eat s _).andThen (eat_spends s _) fun _ s₁ _ h₁ => ?_
    refine (Does.part name s₁).andThen (name_spends s₁) fun name s₂ _ h₂ => ?_
    refine (parameters_does (by omega)).andThen s₂.parameters_moves.spends
      fun parameters s₃ _ h₃ => ?_
    exact (block_does (by omega)).map
termination_by d

theorem conditional_does {d : Nat} {s : State} (h : 4 * s.toCome < d) :
    (conditional d).Does s s.conditional := by
  cases d with
  | zero => omega
  | succ d =>
    rw [conditional, State.conditional]
    refine (Does.eat s _).andThen (eat_spends s _) fun _ s₁ _ h₁ => ?_
    refine (Does.eat s₁ _).andThen (eat_spends s₁ _) fun _ s₂ _ h₂ => ?_
    refine (expression_does (by omega)).andThen s₂.expression_moves.spends
      fun test s₃ _ h₃ => ?_
    refine (Does.eat s₃ _).andThen (eat_spends s₃ _) fun _ s₄ _ h₄ => ?_
    refine (block_does (by omega)).follow ?_ ?_
    · intro fault stop hx
      rw [hx]
    · intro consequent s₅ h₅ hx
      have hlt := s₄.block_moves.spends.lt hx
      simp only [hx]
      refine Does.get ?_
      split
      · refine ((Does.eat s₅ _).andThen (eat_spends s₅ _) fun _ s₆ _ h₆ => ?_).weaken
        refine (Does.get ?_).map
        split
        · exact (conditional_does (by omega)).map
        · exact (block_does (by omega)).map
      · exact Does.return_done
termination_by d

theorem forOf_does {d : Nat} {s : State} (h : 4 * s.toCome < d) : (forOf d).Does s s.forOf := by
  cases d with
  | zero => omega
  | succ d =>
    rw [forOf, State.forOf]
    refine (Does.eat s _).andThen (eat_spends s _) fun _ s₁ _ h₁ => ?_
    refine (Does.eat s₁ _).andThen (eat_spends s₁ _) fun _ s₂ _ h₂ => ?_
    refine (Does.eat s₂ _).andThen (eat_spends s₂ _) fun _ s₃ _ h₃ => ?_
    refine (Does.part name s₃).andThen (name_spends s₃) fun element s₄ _ h₄ => ?_
    refine (Does.eat s₄ _).andThen (eat_spends s₄ _) fun _ s₅ _ h₅ => ?_
    refine (Does.part name s₅).andThen (name_spends s₅) fun collection s₆ _ h₆ => ?_
    refine (Does.eat s₆ _).andThen (eat_spends s₆ _) fun _ s₇ _ h₇ => ?_
    exact (block_does (by omega)).map
termination_by d

end

end Bounded

/-- From `s` on, calls and passes of loops that nest no deeper than `d` are enough. -/
structure State.EndsWithin (d : Nat) (s : State) : Prop where
  program : (Bounded.program d).Does s s.program
  statements : ∀ stop, (Bounded.statements d stop).Does s (s.statements stop)
  statementsFrom : ∀ s₀ stop read (h : s.remaining < s₀.remaining),
    (Bounded.statementsFrom d stop read).Does s (State.statementsFrom s₀ stop read s h)
  statement : (Bounded.statement d).Does s s.statement
  block : (Bounded.block d).Does s s.block
  expressionStatement : (Bounded.expressionStatement d).Does s s.expressionStatement
  function : (Bounded.function d).Does s s.function
  parameters : (Bounded.parameters d).Does s s.parameters
  parametersFrom : ∀ s₀ read (h : s.remaining < s₀.remaining),
    (Bounded.parametersFrom d read).Does s (State.parametersFrom s₀ read s h)
  conditional : (Bounded.conditional d).Does s s.conditional
  forOf : (Bounded.forOf d).Does s s.forOf
  expression : (Bounded.expression d).Does s s.expression
  declaration : (Bounded.declaration d).Does s s.declaration
  chain : ∀ s₀ before last (h : s.remaining < s₀.remaining),
    (Bounded.chain d before last).Does s (State.chain s₀ before last s h)

open Bounded in
theorem State.endsWithin {d : Nat} {s : State} (h : 4 * s.toCome + 3 < d) : s.EndsWithin d where
  program := (statements_does none h).map
  statements stop := statements_does stop h
  statementsFrom _ stop read hs := statementsFrom_does stop read hs h
  statement := statement_does (by omega)
  block := block_does (by omega)
  expressionStatement := expressionStatement_does (by omega)
  function := function_does (by omega)
  parameters := parameters_does (by omega)
  parametersFrom _ read hs := parametersFrom_does read hs (by omega)
  conditional := conditional_does (by omega)
  forOf := forOf_does (by omega)
  expression := expression_does (by omega)
  declaration := declaration_does (by omega)
  chain _ before last hs := chain_does before last hs (by omega)

theorem Bounded.parse_eq {d : Nat} {source : String}
    (h : 4 * (scan source).tokens.length + 4 ≤ d) :
    Bounded.parse d source = some (Scriptlet.parse source) := by
  rw [Bounded.parse, Scriptlet.parse, parseChars]
  cases hprime : State.prime source.toList with
  | error fault => rfl
  | ok s =>
    have hcount := State.toCome_of_prime hprime
    have hdoes := (State.endsWithin (d := d) (s := s) (by omega)).program
    unfold Does at hdoes
    dsimp only
    rw [hdoes]
    cases s.program <;> rfl

/-! ## Everything ends -/

/-- A text is parsed with no more than four nested calls or passes of loops for each of its tokens,
and four more. In whatever state a production begins, it leaves fewer tokens to come if it succeeds
and no more if it fails; the three loops end after passes that take a token each, and every part of
the parser ends within such a bound. -/
theorem parsing_ends :
    (∀ source d, 4 * (scan source).tokens.length + 4 ≤ d →
      Bounded.parse d source = some (parse source)) ∧
    ∀ s : State,
      (∀ (s₀ : State) (α : Type) (x : Step s₀ α), Production s x → x.Spends s) ∧
      (s.statement.Spends s ∧ ∀ s₀ stop, (statementLoop s₀ stop).EndsFrom s) ∧
      (s.parameter.Spends s ∧ ∀ s₀, (parameterLoop s₀).EndsFrom s) ∧
      (s.link.Spends s ∧ ∀ s₀, (linkLoop s₀).EndsFrom s) ∧
      ∀ d, 4 * s.toCome + 4 ≤ d → s.EndsWithin d := by
  refine ⟨fun _ _ => Bounded.parse_eq, fun s => ⟨fun _ _ _ => Production.spends, ?_, ?_, ?_, ?_⟩⟩
  · exact ⟨statement_spends s, fun s₀ stop => (statementLoop s₀ stop).endsFrom statement_spends s⟩
  · exact ⟨parameter_spends s, fun s₀ => (parameterLoop s₀).endsFrom parameter_spends s⟩
  · exact ⟨link_spends s, fun s₀ => (linkLoop s₀).endsFrom link_spends s⟩
  · exact fun d => State.endsWithin

/-- A list of parameters that is still open where the text ends. -/
theorem parsing_ends_openParameters :
    Bounded.parse 20 "function f(a" = some (parse "function f(a") ∧
      ∃ s, State.prime "(a,".toList = .ok s ∧ s.toCome = 3 ∧ s.parameters.Spends s ∧
        s.EndsWithin 16 := by
  have hfour : (scan "function f(a").tokens.length = 4 := by decide +kernel
  have hthree : (scan "(a,").tokens.length = 3 := by decide +kernel
  obtain ⟨hparse, hparts⟩ := parsing_ends
  refine ⟨hparse _ _ (by rw [hfour]), ?_⟩
  cases hprime : State.prime "(a,".toList with
  | error e =>
    rw [scan, State.feed_of_prime_error hprime] at hthree
    cases hthree
  | ok s =>
    have hcount : s.toCome = 3 := (State.toCome_of_prime hprime).trans hthree
    obtain ⟨hproductions, -, -, -, hdepth⟩ := hparts s
    exact ⟨s, rfl, hcount, hproductions _ _ _ (.parameters s), hdepth 16 (by rw [hcount])⟩

end Scriptlet
