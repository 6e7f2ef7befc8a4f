import Scriptlet.Parser.Program
import Scriptlet.Proofs.Scan.History
import Scriptlet.Proofs.Syntax.Taking

/-!
# Scriptlet.Proofs.Syntax.Progress

How much of a text the parts of the parser use up, counted in tokens:

* `State.toCome s`     — how many tokens come from the state `s` on.
* `Step.Spends s x`    — the part `x`, begun in `s`, takes a token if it succeeds, and puts none
                         back if it fails.
* `Production s x`     — the production `x` of the grammar, begun in `s`.
* `Step.resume h x f`  — the step `x` of a part that took tokens before, and what comes after it.
* `Loop`               — a loop of the parser: when it goes on, what one pass does and what is kept
                         of it.
* `Loop.EndsFrom l s`  — from `s` the loop makes passes that succeed, each of them at the expense of
                         a token, until it need not go on or a pass fails.

Taking a token leaves one token less (`toCome_of_eat`), so a part that takes tokens from state to
state leaves the fewer the more it takes (`Step.Moves.toCome_le`).
-/

namespace Scriptlet

/-- The tokens before a state, up to the end of the text or a fault of the scanner. -/
def State.toCome (s : State) : Nat := s.feed.tokens.length

def Step.Spends (s : State) {s₀ : State} {α : Type} : Step s₀ α → Prop
  | .done _ next _ => next.toCome < s.toCome
  | .failed _ stop => stop.toCome ≤ s.toCome

theorem Step.Spends.lt {s s₀ next : State} {α : Type} {x : Step s₀ α} {v : α}
    {shorter : next.remaining < s₀.remaining} (h : x.Spends s) (hx : x = .done v next shorter) :
    next.toCome < s.toCome := by
  rw [hx] at h
  exact h

/-! ## Taking tokens -/

namespace State

theorem toCome_of_prime {source : String} {s : State} (h : prime source.toList = .ok s) :
    s.toCome = (scan source).tokens.length := by
  rw [toCome, (ready_prime h).2, scan]

/-- A scanner that has met a fault gives no further token. -/
theorem toCome_of_fault {s scanner : Scanner} {e : ScanFault}
    (h : s.nextToken = (.fault e, scanner)) : (State.mk scanner none).toCome = 0 := by
  rw [toCome, feed, Scanner.feed_fault (Scanner.stuck_of_fault h).2.2]
  rfl

theorem eat_toCome (s : State) (k : Kind) :
    match s.eat k with
    | .done _ next _ => next.toCome + 1 = s.toCome
    | .failed _ stop => stop.toCome ≤ s.toCome := by
  generalize hx : s.eat k = x
  unfold eat at hx
  split at hx
  · subst hx
    exact le_rfl
  · rename_i t hl
    have hs : s.toCome = s.scanner.feed.tokens.length + 1 := by simp [toCome, feed, hl]
    split at hx
    · split at hx
      · rename_i hn
        subst hx
        change State.toCome _ + 1 = s.toCome
        rw [hs, toCome, (ready_token hn).2]
      · rename_i hn
        subst hx
        change State.toCome _ + 1 = s.toCome
        rw [hs, toCome, (ready_finish hn).2]
      · rename_i hn
        subst hx
        exact (toCome_of_fault hn).le.trans (Nat.zero_le _)
    · subst hx
      exact le_rfl

theorem toCome_of_eat {s next : State} {k : Kind} {t : Token}
    {shorter : next.remaining < s.remaining} (h : s.eat k = .done t next shorter) :
    next.toCome + 1 = s.toCome := by
  have hone := s.eat_toCome k
  rwa [h] at hone

theorem Halts.toCome_le {s stop : State} {f : Fault} (h : s.Halts f stop) :
    stop.toCome ≤ s.toCome := by
  cases h with
  | unchanged _ => exact le_rfl
  | @lexical k e stop he =>
    have hone := s.eat_toCome k
    rwa [he] at hone

theorem Takes.toCome_eq {s last : State} {ts : List Token} (h : s.Takes ts last) :
    ts.length + last.toCome = s.toCome := by
  induction h with
  | refl s => exact Nat.zero_add _
  | eat he _ ih =>
    rw [← toCome_of_eat he, ← ih, List.length_cons]
    exact Nat.add_right_comm _ _ _

end State

namespace Step.Moves

variable {s s₀ next stop : State} {α : Type} {v : α} {f : Fault}

theorem toCome_le {shorter : next.remaining < s₀.remaining}
    (h : (Step.done v next shorter).Moves s) : next.toCome ≤ s.toCome := by
  obtain ⟨ts, hts⟩ := h
  rw [← hts.toCome_eq]
  exact Nat.le_add_left _ _

theorem toCome_le_of_failed (h : (Step.failed f stop : Step s₀ α).Moves s) :
    stop.toCome ≤ s.toCome := by
  obtain ⟨ts, last, hts, hhalts⟩ := h
  calc
    stop.toCome ≤ last.toCome := hhalts.toCome_le
    _ ≤ ts.length + last.toCome := Nat.le_add_left _ _
    _ = s.toCome := hts.toCome_eq

/-- What has less before it in the end than in the beginning has taken a token. -/
theorem spends {x : Step s α} (h : x.Moves s) : x.Spends s := by
  cases x with
  | failed f stop => exact h.toCome_le_of_failed
  | done v next shorter =>
    obtain ⟨ts, hts⟩ := h
    cases hts with
    | refl => exact absurd shorter (Nat.lt_irrefl _)
    | eat he hts =>
      have hone := State.toCome_of_eat he
      have hrest := hts.toCome_eq
      change next.toCome < s.toCome
      omega

/-- What is begun after a token was taken. -/
theorem spends_after {x : Step s₀ α} (h : x.Moves next) (hlt : next.toCome < s.toCome) :
    x.Spends s := by
  cases x with
  | failed f stop => exact h.toCome_le_of_failed.trans hlt.le
  | done v last shorter => exact h.toCome_le.trans_lt hlt

end Step.Moves

/-! ## Productions -/

/-- The productions of the grammar, each with the state in which it begins. What follows the first
operand of a chain is one where an operator comes. -/
inductive Production : State → {s₀ : State} → {α : Type} → Step s₀ α → Prop where
  | program (s : State) : Production s s.program
  | statements (s : State) (stop : Option Kind) : Production s (s.statements stop)
  | statement (s : State) : Production s s.statement
  | block (s : State) : Production s s.block
  | expressionStatement (s : State) : Production s s.expressionStatement
  | function (s : State) : Production s s.function
  | parameters (s : State) : Production s s.parameters
  | conditional (s : State) : Production s s.conditional
  | forOf (s : State) : Production s s.forOf
  | expression (s : State) : Production s s.expression
  | declaration (s : State) : Production s s.declaration
  | literal (s : State) : Production s s.literal
  | chain {s₀ : State} (first : Expression) (s : State) (h : s.remaining < s₀.remaining) :
      s.check .operator = true → Production s (State.chain s₀ [] first s h)

/-! ## Loops -/

theorem State.shorter_trans {s₀ s next : State} (h : s.remaining < s₀.remaining)
    (shorter : next.remaining < s.remaining) : next.remaining < s₀.remaining :=
  Nat.lt_trans shorter h

/-- A step in the middle of a part that began in the state `s₀`, and what the part does after it. -/
def Step.resume {s₀ s : State} {α β : Type} (h : s.remaining < s₀.remaining) (x : Step s α)
    (f : (value : α) → (next : State) → next.remaining < s₀.remaining → Step s₀ β) : Step s₀ β :=
  match x with
  | .done value next shorter => f value next (State.shorter_trans h shorter)
  | .failed fault stop => .failed fault stop

/-- A loop of a part that began in the state `s₀`. It keeps a `σ`, and each pass adds an `α`. -/
structure Loop (s₀ : State) (σ α β : Type) where
  again : State → Bool
  pass : (s : State) → Step s α
  keep : σ → α → σ
  run : σ → (s : State) → s.remaining < s₀.remaining → Step s₀ β
  run_again : ∀ (a : σ) (s : State) (h : s.remaining < s₀.remaining), again s = true →
    run a s h = (pass s).resume h fun v next h' => run (keep a v) next h'

namespace Loop

variable {s₀ : State} {σ α β : Type}

/-- Passes that succeed, with what they add. -/
inductive Passes (l : Loop s₀ σ α β) : State → List α → State → Prop where
  | refl (s : State) : Passes l s [] s
  | next {s next last : State} {v : α} {vs : List α} {shorter : next.remaining < s.remaining} :
      l.again s = true → l.pass s = .done v next shorter → Passes l next vs last →
      Passes l s (v :: vs) last

/-- Some passes succeed, each at the expense of a token. Then either the loop need not go on, or the
next pass fails and the loop with it. -/
def EndsFrom (l : Loop s₀ σ α β) (s : State) : Prop :=
  ∀ (a : σ) (h : s.remaining < s₀.remaining), ∃ vs last hlast,
    l.Passes s vs last ∧ vs.length + last.toCome ≤ s.toCome ∧
    (l.again last = false ∧ l.run a s h = l.run (vs.foldl l.keep a) last hlast ∨
      l.again last = true ∧ ∃ fault stop, l.pass last = .failed fault stop ∧
        l.run a s h = .failed fault stop)

theorem endsFrom (l : Loop s₀ σ α β) (hspends : ∀ s, (l.pass s).Spends s) (s : State) :
    l.EndsFrom s := by
  -- Only the tokens to come are counted here, not the text that a step says is shorter.
  induction hn : s.toCome using Nat.strongRecOn generalizing s with
  | ind n ih =>
    subst hn
    intro a h
    cases hagain : l.again s with
    | false => exact ⟨[], s, h, .refl s, Nat.zero_add _ |>.le, .inl ⟨hagain, rfl⟩⟩
    | true =>
      have hrun := l.run_again a s h hagain
      cases hx : l.pass s with
      | failed fault stop =>
        rw [hx] at hrun
        exact ⟨[], s, h, .refl s, Nat.zero_add _ |>.le, .inr ⟨hagain, fault, stop, hx, hrun⟩⟩
      | done v next shorter =>
        rw [hx] at hrun
        have hlt := (hspends s).lt hx
        obtain ⟨vs, last, hlast, hpasses, hcount, hend⟩ := ih next.toCome hlt next rfl
          (l.keep a v) (Nat.lt_trans shorter h)
        refine ⟨v :: vs, last, hlast, .next hagain hx hpasses, ?_, ?_⟩
        · rw [List.length_cons]
          omega
        · rw [hrun]
          exact hend

end Loop

/-! ### The loops of the parser -/

namespace State

/-- What has to follow an operator. -/
def operand (s : State) : Step s Expression :=
  if s.check .letWord then s.declaration else s.literal

theorem operand_eq (s : State) :
    (if s.check .letWord = true then s.declaration else s.literal) = s.operand := rfl

theorem operand_moves (s : State) : s.operand.Moves s := by
  unfold operand
  split
  · exact s.declaration_moves
  · exact s.literal_moves

/-- An operator and the operand after it. -/
def link (s : State) : Step s (Operator × Expression) :=
  s.operator.andThen fun operator s₁ _ => s₁.operand.map fun operand => (operator, operand)

theorem link_moves (s : State) : s.link.Moves s :=
  s.operator_moves.andThen fun _ s₁ _ => s₁.operand_moves.map

/-- A parameter, with the comma after it unless the list ends there. -/
def parameter (s : State) : Step s String :=
  match s.name with
  | .failed fault stop => .failed fault stop
  | .done name s₁ h₁ =>
    match s₁.lookahead with
    | some ⟨.commaCloseParen, _, position⟩ =>
      .failed (.unexpectedToken .comma .closeParen position) s₁
    | _ =>
      if s₁.check .closeParen then .done name s₁ h₁
      else (Step.done name s₁ h₁).andThen fun _ s₂ _ => (s₂.eat .comma).map fun _ => name

theorem parameter_moves (s : State) : s.parameter.Moves s := by
  unfold parameter
  refine s.name_moves.follow ?_ ?_
  · intro fault stop hx
    rw [hx]
  · intro name s₁ h₁ hx
    simp only [hx]
    split
    -- The fused token is refused where it stands.
    · exact ⟨[], s₁, .refl s₁, .unchanged (by simp)⟩
    · split
      · exact ⟨[], .refl s₁⟩
      · refine Step.Moves.andThen ⟨[], .refl s₁⟩ fun _ s₂ _ => ?_
        exact (s₂.eat_moves .comma).map

variable {s₀ s : State}

theorem chain_again {before : List (Expression × Operator)} {last : Expression}
    {h : s.remaining < s₀.remaining} (hagain : s.check .operator = true) :
    chain s₀ before last s h =
      s.link.resume h fun link next h' => chain s₀ ((last, link.1) :: before) link.2 next h' := by
  rw [chain, if_pos hagain, link]
  cases s.operator with
  | failed fault stop => rfl
  | done operator s₁ h₁ =>
    simp only [Step.andThen, operand_eq]
    cases s₁.operand <;> rfl

theorem parametersFrom_again {read : List String} {h : s.remaining < s₀.remaining}
    (hagain : ¬ s.check .closeParen = true) :
    parametersFrom s₀ read s h =
      s.parameter.resume h fun name next h' => parametersFrom s₀ (name :: read) next h' := by
  rw [parametersFrom, if_neg hagain, parameter]
  cases s.name with
  | failed fault stop => rfl
  | done name s₁ h₁ =>
    dsimp only
    split
    · simp_all only [Step.resume]
    · by_cases hclose : s₁.check .closeParen = true
      · simp only [if_pos hclose, Step.resume]
      · simp only [if_neg hclose, Step.andThen]
        cases s₁.eat .comma <;> rfl

theorem statementsFrom_again {stop : Option Kind} {read : List Statement}
    {h : s.remaining < s₀.remaining} (hagain : ¬ s.endsList stop = true) :
    statementsFrom s₀ stop read s h =
      s.statement.resume h fun value next h' =>
        statementsFrom s₀ stop (value :: read) next h' := by
  rw [statementsFrom, if_neg hagain]
  cases s.statement <;> rfl

end State

/-- What is read of a chain after its first operand. -/
def linkLoop (s₀ : State) :
    Loop s₀ (List (Expression × Operator) × Expression) (Operator × Expression) Expression where
  again s := s.check .operator
  pass := State.link
  keep before link := ((before.2, link.1) :: before.1, link.2)
  run before s h := State.chain s₀ before.1 before.2 s h
  run_again _ _ _ hagain := State.chain_again hagain

/-- What is read of a list of parameters after its opening parenthesis. -/
def parameterLoop (s₀ : State) : Loop s₀ (List String) String (List String) where
  again s := !s.check .closeParen
  pass := State.parameter
  keep read name := name :: read
  run read s h := State.parametersFrom s₀ read s h
  run_again _ _ _ hagain := State.parametersFrom_again (by simpa using hagain)

/-- What is read of a list of statements after its first one. -/
def statementLoop (s₀ : State) (stop : Option Kind) :
    Loop s₀ (List Statement) Statement (List Statement) where
  again s := !s.endsList stop
  pass := State.statement
  keep read value := value :: read
  run read s h := State.statementsFrom s₀ stop read s h
  run_again _ _ _ hagain := State.statementsFrom_again (by simpa using hagain)

theorem link_spends (s : State) : s.link.Spends s := s.link_moves.spends

theorem parameter_spends (s : State) : s.parameter.Spends s := s.parameter_moves.spends

theorem statement_spends (s : State) : s.statement.Spends s := s.statement_moves.spends

/-! ## Every production -/

theorem chain_spends {s₀ s : State} {before : List (Expression × Operator)} {last : Expression}
    {h : s.remaining < s₀.remaining} (hop : s.check .operator = true) :
    (State.chain s₀ before last s h).Spends s := by
  have hpass := link_spends s
  rw [State.chain_again hop]
  cases hx : s.link with
  | failed fault stop =>
    rw [hx] at hpass
    exact hpass
  | done link next shorter => exact (State.chain_moves _ _ next _).spends_after (hpass.lt hx)

theorem Production.spends {s s₀ : State} {α : Type} {x : Step s₀ α} (h : Production s x) :
    x.Spends s := by
  cases h with
  | program s => exact s.program_moves.spends
  | statements s stop => exact (s.statements_moves stop).spends
  | statement s => exact statement_spends s
  | block s => exact s.block_moves.spends
  | expressionStatement s => exact s.expressionStatement_moves.spends
  | function s => exact s.function_moves.spends
  | parameters s => exact s.parameters_moves.spends
  | conditional s => exact s.conditional_moves.spends
  | forOf s => exact s.forOf_moves.spends
  | expression s => exact s.expression_moves.spends
  | declaration s => exact s.declaration_moves.spends
  | literal s => exact s.literal_moves.spends
  | chain first s h hop => exact chain_spends hop

end Scriptlet
