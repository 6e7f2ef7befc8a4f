import Scriptlet.Proofs.Syntax.Acceptance

/-!
# Scriptlet.Proofs.Syntax.Taking

How the parser goes through the tokens of a text:

* `State.Takes s ts last`  — from the state `s`, taking the tokens `ts` one after the other leads to
                             `last`.
* `State.Halts s f stop`   — the fault `f` is met in the state `s`, which stays as it is unless the
                             scanner has met the fault.
* `Step.Moves s x`         — the part `x`, begun in `s`, ends in a state that taking tokens leads
                             to, or meets a fault in such a state.
* `Part s x`               — the part `x` of the parser, begun in `s`.

`Takes.feed_eq` is what taking tokens keeps: those that were taken and those before the last state
are the tokens before the first one. All states that the same one leads to are in one line
(`Takes.linear`), and no part of the parser leaves it (`Part.moves`).
`tokens_taken_in_order` is about the line that begins before the first token of a text.
-/

namespace Scriptlet

/-- Taking tokens one after the other. -/
inductive State.Takes : State → List Token → State → Prop where
  | refl (s : State) : Takes s [] s
  | eat {s next last : State} {k : Kind} {t : Token} {ts : List Token}
      {shorter : next.remaining < s.remaining} :
      s.eat k = .done t next shorter → Takes next ts last → Takes s (t :: ts) last

/-- Where a fault leaves a state in which it is met. -/
inductive State.Halts (s : State) : Fault → State → Prop where
  | lexical {k : Kind} {e : ScanFault} {stop : State} :
      s.eat k = .failed (.lexical e) stop → Halts s (.lexical e) stop
  | unchanged {f : Fault} : (∀ e, f ≠ .lexical e) → Halts s f s

def Step.Moves (s : State) {s₀ : State} {α : Type} : Step s₀ α → Prop
  | .done _ next _ => ∃ ts, s.Takes ts next
  | .failed f stop => ∃ ts last, s.Takes ts last ∧ last.Halts f stop

/-! ## Taking one token -/

namespace State

theorem eat_eq_done {s next : State} {k : Kind} {t : Token} {shorter : next.remaining < s.remaining}
    (h : s.eat k = .done t next shorter) : t.kind = k ∧ s.lookahead = some t := by
  unfold eat at h
  split at h
  · cases h
  · rename_i u hl
    split at h
    · rename_i hk
      split at h
      · cases h
        exact ⟨hk, hl⟩
      · cases h
        exact ⟨hk, hl⟩
      · cases h
    · cases h

/-- A token is not taken if the scanner meets a fault after it, or if it is not of the kind that has
to come. -/
theorem eat_eq_failed {s stop : State} {k : Kind} {f : Fault} (h : s.eat k = .failed f stop) :
    (∃ e t scanner, f = .lexical e ∧ s.lookahead = some t ∧
      s.scanner.nextToken = (.fault e, scanner)) ∨ (∀ e, f ≠ .lexical e) ∧ stop = s := by
  unfold eat at h
  split at h
  · cases h
    exact .inr ⟨by simp, rfl⟩
  · rename_i t hl
    split at h
    · split at h
      · cases h
      · cases h
      · rename_i e scanner hn
        cases h
        exact .inl ⟨e, t, scanner, rfl, hl, hn⟩
    · cases h
      exact .inr ⟨by simp, rfl⟩

/-! ## Taking several -/

namespace Takes

variable {s a b : State} {ts us : List Token}

theorem trans (h : s.Takes ts a) (h' : a.Takes us b) : s.Takes (ts ++ us) b := by
  induction h with
  | refl s => exact h'
  | eat he _ ih => exact .eat he (ih h')

theorem concat {k : Kind} {t : Token} {shorter : b.remaining < a.remaining} (h : s.Takes ts a)
    (he : a.eat k = .done t b shorter) : s.Takes (ts ++ [t]) b := h.trans (.eat he (.refl b))

theorem feed_eq (h : s.Takes ts a) (hs : s.Ready) :
    a.Ready ∧ s.feed = ⟨ts ++ a.feed.tokens, a.feed.fault?⟩ := by
  induction h with
  | refl s => exact ⟨hs, rfl⟩
  | @eat s next last k t ts shorter he _ ih =>
    have hmeets := eat_meets hs k
    rw [he] at hmeets
    obtain ⟨hnext, _, hfeed, ⟨rfl, -, -⟩, -⟩ := hmeets
    obtain ⟨hlast, hrest⟩ := ih hnext
    rw [hrest] at hfeed
    exact ⟨hlast, hfeed⟩

/-- The first token decides how it is taken, so there is one way only to go on. -/
theorem linear (h : s.Takes ts a) (h' : s.Takes us b) :
    (∃ vs, us = ts ++ vs ∧ a.Takes vs b) ∨ ∃ vs, ts = us ++ vs ∧ b.Takes vs a := by
  induction h generalizing us with
  | refl s => exact .inl ⟨us, rfl, h'⟩
  | @eat s next last k t ts shorter he hts ih =>
    cases h' with
    | refl s => exact .inr ⟨t :: ts, rfl, .eat he hts⟩
    | @eat s next' last' k' t' us shorter' he' hus =>
      obtain ⟨rfl, hl⟩ := eat_eq_done he
      obtain ⟨rfl, hl'⟩ := eat_eq_done he'
      obtain rfl : t = t' := Option.some.inj (hl.symm.trans hl')
      rw [he] at he'
      cases he'
      rcases ih hus with ⟨vs, rfl, hvs⟩ | ⟨vs, rfl, hvs⟩
      · exact .inl ⟨vs, rfl, hvs⟩
      · exact .inr ⟨vs, rfl, hvs⟩

end Takes

end State

/-! ## Moving -/

namespace Step.Moves

open State

variable {s s₀ s₁ next : State} {α β : Type} {x : Step s₀ α}

theorem map {f : α → β} (hx : x.Moves s) : (x.map f).Moves s := by
  cases x with
  | done v next h => exact hx
  | failed f stop => exact hx

theorem weaken {h : s₀.remaining ≤ s₁.remaining} (hx : x.Moves s) : (x.weaken h).Moves s := by
  cases x with
  | done v next h => exact hx
  | failed f stop => exact hx

theorem after {ts : List Token} (hs : s.Takes ts next) (hx : x.Moves next) : x.Moves s := by
  cases x with
  | done v last h =>
    obtain ⟨us, hus⟩ := hx
    exact ⟨ts ++ us, hs.trans hus⟩
  | failed f stop =>
    obtain ⟨us, last, hus, hhalts⟩ := hx
    exact ⟨ts ++ us, last, hs.trans hus, hhalts⟩

/-- A part `y` that begins with the part `x`, and fails as `x` does. -/
theorem follow {y : Step s₁ β} (hx : x.Moves s)
    (hfailed : ∀ f stop, x = .failed f stop → y = .failed f stop)
    (hdone : ∀ v next h, x = .done v next h → y.Moves next) : y.Moves s := by
  cases x with
  | done v next h =>
    obtain ⟨ts, hts⟩ := hx
    exact after hts (hdone v next h rfl)
  | failed f stop =>
    rw [hfailed f stop rfl]
    exact hx

theorem andThen {f : (v : α) → (next : State) → next.remaining < s₀.remaining → Step next β}
    (hx : x.Moves s) (hf : ∀ v next h, (f v next h).Moves next) : (x.andThen f).Moves s := by
  refine follow hx ?_ ?_
  · rintro e stop rfl
    rfl
  · rintro v next h rfl
    have hy := hf v next h
    simp only [Step.andThen]
    cases hval : f v next h with
    | done w last hlt => rwa [hval] at hy
    | failed e stop => rwa [hval] at hy

/-- A text without a meaning is a fault after its token was taken. -/
theorem meaning {y : Step s Token} {k : Kind} {read : String → Option α} (hy : y.Moves s) :
    (State.meaning k read y).Moves s := by
  refine follow hy ?_ ?_
  · rintro f stop rfl
    rfl
  · rintro t next h rfl
    simp only [State.meaning]
    split
    · exact ⟨[], .refl next⟩
    · exact ⟨[], next, .refl next, .unchanged (by simp)⟩

end Step.Moves

namespace State

open Step

theorem eat_moves (s : State) (k : Kind) : (s.eat k).Moves s := by
  cases hx : s.eat k with
  | done t next h => exact ⟨[t], .eat hx (.refl next)⟩
  | failed f stop =>
    refine ⟨[], s, .refl s, ?_⟩
    rcases eat_eq_failed hx with ⟨e, _, _, rfl, -⟩ | ⟨hf, rfl⟩
    · exact .lexical hx
    · exact .unchanged hf

/-! ## Expressions -/

theorem name_moves (s : State) : s.name.Moves s := (s.eat_moves .identifier).map

theorem number_moves (s : State) : s.number.Moves s := (s.eat_moves .number).meaning

theorem string_moves (s : State) : s.string.Moves s := (s.eat_moves .string).map

theorem boolean_moves (s : State) : s.boolean.Moves s := (s.eat_moves .boolean).map

theorem literal_moves (s : State) : s.literal.Moves s := by
  unfold literal
  split
  · exact s.number_moves
  · exact s.string_moves
  · exact s.boolean_moves
  · exact s.name_moves.map

theorem operator_moves (s : State) : s.operator.Moves s := (s.eat_moves .operator).meaning

mutual

theorem expression_moves (s : State) : s.expression.Moves s := by
  rw [expression]
  split
  · exact s.declaration_moves
  · refine s.literal_moves.follow ?_ ?_
    · intro f stop hx
      rw [hx]
    · intro v next h hx
      simp only [hx]
      exact chain_moves [] v next h
termination_by (s.remaining, 1)

theorem declaration_moves (s : State) : s.declaration.Moves s := by
  rw [declaration]
  refine (s.eat_moves .letWord).andThen fun _ s₁ h₁ => ?_
  refine s₁.name_moves.andThen fun name s₂ h₂ => ?_
  refine (s₂.eat_moves .assign).andThen fun _ s₃ h₃ => ?_
  exact s₃.expression_moves.map
termination_by (s.remaining, 0)

theorem chain_moves {s₀ : State} (before : List (Expression × Operator)) (last : Expression)
    (s : State) (h : s.remaining < s₀.remaining) : (chain s₀ before last s h).Moves s := by
  rw [chain]
  split
  · refine s.operator_moves.follow ?_ ?_
    · intro f stop hx
      rw [hx]
    · intro o s₁ h₁ hx
      simp only [hx]
      have hoperand : (if s₁.check .letWord then s₁.declaration else s₁.literal).Moves s₁ := by
        split
        · exact s₁.declaration_moves
        · exact s₁.literal_moves
      refine hoperand.follow ?_ ?_
      · intro f stop hx₁
        rw [hx₁]
      · intro v s₂ h₂ hx₁
        simp only [hx₁]
        exact chain_moves _ v s₂ _
  · exact ⟨[], .refl s⟩
termination_by (s.remaining, 2)

end

/-! ## Parameters -/

theorem parametersFrom_moves {s₀ : State} (read : List String) (s : State)
    (h : s.remaining < s₀.remaining) : (parametersFrom s₀ read s h).Moves s := by
  rw [parametersFrom]
  split
  · refine (s.eat_moves .closeParen).follow ?_ ?_
    · intro f stop hx
      rw [hx]
    · intro c s₁ h₁ hx
      simp only [hx]
      exact ⟨[], .refl s₁⟩
  · refine s.name_moves.follow ?_ ?_
    · intro f stop hx
      rw [hx]
    · intro name s₁ h₁ hx
      simp only [hx]
      split
      -- The fused token is looked at and not taken.
      · exact ⟨[], s₁, .refl s₁, .unchanged (by simp)⟩
      · split
        · exact parametersFrom_moves _ s₁ _
        · refine (s₁.eat_moves .comma).follow ?_ ?_
          · intro f stop hx₁
            rw [hx₁]
          · intro m s₂ h₂ hx₁
            simp only [hx₁]
            exact parametersFrom_moves _ s₂ _
termination_by s.remaining

theorem parameters_moves (s : State) : s.parameters.Moves s := by
  rw [parameters]
  refine (s.eat_moves .openParen).follow ?_ ?_
  · intro f stop hx
    rw [hx]
  · intro o s₁ h₁ hx
    simp only [hx]
    exact parametersFrom_moves [] s₁ h₁

/-! ## Statements -/

theorem expressionStatement_moves (s : State) : s.expressionStatement.Moves s := by
  refine s.expression_moves.andThen fun value s₁ _ => ?_
  exact (s₁.eat_moves .semicolon).map

mutual

theorem statement_moves (s : State) : s.statement.Moves s := by
  rw [statement]
  split
  · exact s.block_moves.map
  · exact s.forOf_moves
  · exact s.conditional_moves.map
  · exact s.function_moves
  · exact s.expressionStatement_moves
termination_by (s.remaining, 1)

theorem statements_moves (s : State) (stop : Option Kind) : (s.statements stop).Moves s := by
  rw [statements]
  refine s.statement_moves.follow ?_ ?_
  · intro f stop' hx
    rw [hx]
  · intro v s₁ h₁ hx
    simp only [hx]
    exact statementsFrom_moves stop [v] s₁ h₁
termination_by (s.remaining, 2)

theorem statementsFrom_moves {s₀ : State} (stop : Option Kind) (read : List Statement) (s : State)
    (h : s.remaining < s₀.remaining) : (statementsFrom s₀ stop read s h).Moves s := by
  rw [statementsFrom]
  split
  · exact ⟨[], .refl s⟩
  · refine s.statement_moves.follow ?_ ?_
    · intro f stop' hx
      rw [hx]
    · intro v s₁ h₁ hx
      simp only [hx]
      exact statementsFrom_moves stop (v :: read) s₁ _
termination_by (s.remaining, 2)

theorem block_moves (s : State) : s.block.Moves s := by
  rw [block]
  refine (s.eat_moves .openBrace).andThen fun _ s₁ h₁ => ?_
  split
  · exact (s₁.eat_moves .closeBrace).map
  · refine (s₁.statements_moves (some .closeBrace)).andThen fun body s₂ _ => ?_
    exact (s₂.eat_moves .closeBrace).map
termination_by (s.remaining, 0)

theorem function_moves (s : State) : s.function.Moves s := by
  rw [function]
  refine (s.eat_moves .functionWord).andThen fun _ s₁ h₁ => ?_
  refine s₁.name_moves.andThen fun name s₂ h₂ => ?_
  refine s₂.parameters_moves.andThen fun parameters s₃ h₃ => ?_
  exact s₃.block_moves.map
termination_by (s.remaining, 0)

theorem conditional_moves (s : State) : s.conditional.Moves s := by
  rw [conditional]
  refine (s.eat_moves .ifWord).andThen fun _ s₁ h₁ => ?_
  refine (s₁.eat_moves .openParen).andThen fun _ s₂ h₂ => ?_
  refine s₂.expression_moves.andThen fun test s₃ h₃ => ?_
  refine (s₃.eat_moves .closeParen).andThen fun _ s₄ h₄ => ?_
  refine s₄.block_moves.follow ?_ ?_
  · intro f stop hx
    rw [hx]
  · intro consequent s₅ h₅ hx
    simp only [hx]
    split
    · refine ((s₅.eat_moves .elseWord).andThen fun _ s₆ h₆ => ?_).weaken
      split
      · exact s₆.conditional_moves.map.map
      · exact s₆.block_moves.map.map
    · exact ⟨[], .refl s₅⟩
termination_by (s.remaining, 0)

theorem forOf_moves (s : State) : s.forOf.Moves s := by
  rw [forOf]
  refine (s.eat_moves .forWord).andThen fun _ s₁ h₁ => ?_
  refine (s₁.eat_moves .openParen).andThen fun _ s₂ h₂ => ?_
  refine (s₂.eat_moves .letWord).andThen fun _ s₃ h₃ => ?_
  refine s₃.name_moves.andThen fun element s₄ h₄ => ?_
  refine (s₄.eat_moves .ofWord).andThen fun _ s₅ h₅ => ?_
  refine s₅.name_moves.andThen fun collection s₆ h₆ => ?_
  refine (s₆.eat_moves .closeParen).andThen fun _ s₇ h₇ => ?_
  exact s₇.block_moves.map
termination_by (s.remaining, 0)

end

theorem program_moves (s : State) : s.program.Moves s := (s.statements_moves none).map

end State

/-! ## The line of a text -/

/-- The parts of the parser, each with the state in which it begins. -/
inductive Part : State → {s₀ : State} → {α : Type} → Step s₀ α → Prop where
  | eat (s : State) (k : Kind) : Part s (s.eat k)
  | name (s : State) : Part s s.name
  | number (s : State) : Part s s.number
  | string (s : State) : Part s s.string
  | boolean (s : State) : Part s s.boolean
  | literal (s : State) : Part s s.literal
  | operator (s : State) : Part s s.operator
  | expression (s : State) : Part s s.expression
  | declaration (s : State) : Part s s.declaration
  | chain {s₀ : State} (before : List (Expression × Operator)) (last : Expression) (s : State)
      (h : s.remaining < s₀.remaining) : Part s (State.chain s₀ before last s h)
  | parametersFrom {s₀ : State} (read : List String) (s : State)
      (h : s.remaining < s₀.remaining) : Part s (State.parametersFrom s₀ read s h)
  | parameters (s : State) : Part s s.parameters
  | expressionStatement (s : State) : Part s s.expressionStatement
  | statement (s : State) : Part s s.statement
  | statements (s : State) (stop : Option Kind) : Part s (s.statements stop)
  | statementsFrom {s₀ : State} (stop : Option Kind) (read : List Statement) (s : State)
      (h : s.remaining < s₀.remaining) : Part s (State.statementsFrom s₀ stop read s h)
  | block (s : State) : Part s s.block
  | function (s : State) : Part s s.function
  | conditional (s : State) : Part s s.conditional
  | forOf (s : State) : Part s s.forOf
  | program (s : State) : Part s s.program

theorem Part.moves {s s₀ : State} {α : Type} {x : Step s₀ α} (h : Part s x) : x.Moves s := by
  cases h with
  | eat s k => exact s.eat_moves k
  | name s => exact s.name_moves
  | number s => exact s.number_moves
  | string s => exact s.string_moves
  | boolean s => exact s.boolean_moves
  | literal s => exact s.literal_moves
  | operator s => exact s.operator_moves
  | expression s => exact s.expression_moves
  | declaration s => exact s.declaration_moves
  | chain before last s h => exact State.chain_moves before last s h
  | parametersFrom read s h => exact State.parametersFrom_moves read s h
  | parameters s => exact s.parameters_moves
  | expressionStatement s => exact s.expressionStatement_moves
  | statement s => exact s.statement_moves
  | statements s stop => exact s.statements_moves stop
  | statementsFrom stop read s h => exact State.statementsFrom_moves stop read s h
  | block s => exact s.block_moves
  | function s => exact s.function_moves
  | conditional s => exact s.conditional_moves
  | forOf s => exact s.forOf_moves
  | program s => exact s.program_moves

section Line

variable {source : String} {s₀ s : State} {taken : List Token}

theorem State.Takes.scan_eq (hprime : State.prime source.toList = .ok s₀) (h : s₀.Takes taken s) :
    s.Ready ∧ scan source = ⟨taken ++ s.feed.tokens, s.feed.fault?⟩ := by
  obtain ⟨hready, hfeed⟩ := State.ready_prime hprime
  obtain ⟨hs, hrest⟩ := h.feed_eq hready
  exact ⟨hs, hfeed.symm.trans hrest⟩

/-- A fault of the scanner stands after the token that would have been taken. -/
theorem State.Takes.scan_of_lexical {stop : State} {k : Kind} {f : Fault}
    (hprime : State.prime source.toList = .ok s₀) (h : s₀.Takes taken s)
    (heat : s.eat k = .failed f stop) :
    (∃ e t, f = .lexical e ∧ s.lookahead = some t ∧ scan source = ⟨taken ++ [t], some e⟩) ∨
      (∀ e, f ≠ .lexical e) ∧ stop = s := by
  rcases State.eat_eq_failed heat with ⟨e, t, scanner, hf, hl, hn⟩ | hstays
  · obtain ⟨-, hscan⟩ := h.scan_eq hprime
    rw [State.feed, hl, Scanner.feed_fault hn] at hscan
    exact .inl ⟨e, t, hf, hl, hscan⟩
  · exact .inr hstays

/-- A program is read when all tokens of the text have been taken. -/
theorem takes_all_of_parse {p : Program} (hprime : State.prime source.toList = .ok s₀)
    (hparse : parse source = .ok p) :
    ∃ ts last shorter, s₀.statements none = .done p.statements last shorter ∧ s₀.Takes ts last ∧
      last.lookahead = none ∧ tokenize source = .ok ts := by
  have hmoves := s₀.statements_moves none
  have hmeets := State.statements_meets (State.ready_prime hprime).1 none
  cases hx : s₀.statements none with
  | failed f stop => cases hparse.symm.trans (parse_of_failed hprime hx)
  | done body last shorter =>
    cases hparse.symm.trans (parse_of_done hprime hx)
    rw [hx] at hmoves hmeets
    obtain ⟨ts, hts⟩ := hmoves
    obtain ⟨hlast, _, _, ⟨-, -, hend⟩, -⟩ := hmeets
    rw [or_self, ← hlast.kind?_eq, State.kind?, Option.map_eq_none_iff] at hend
    obtain ⟨-, hscan⟩ := hts.scan_eq hprime
    rw [hlast.feed_of_none hend, List.append_nil] at hscan
    exact ⟨ts, last, shorter, rfl, hts, hend, tokenize_eq_ok_iff.2 hscan⟩

theorem halts_of_parse {f : Fault} (hprime : State.prime source.toList = .ok s₀)
    (hparse : parse source = .error f) :
    ∃ ts last stop, s₀.statements none = .failed f stop ∧ s₀.Takes ts last ∧ last.Halts f stop := by
  have hmoves := s₀.statements_moves none
  cases hx : s₀.statements none with
  | failed g stop =>
    cases hparse.symm.trans (parse_of_failed hprime hx)
    rw [hx] at hmoves
    obtain ⟨ts, last, hts, hhalts⟩ := hmoves
    exact ⟨ts, last, stop, rfl, hts, hhalts⟩
  | done body last shorter => cases hparse.symm.trans (parse_of_done hprime hx)

/-- In each state that the parser can be in, the tokens that were taken, the next one and those
that are left to the scanner are those of the text, and they end as the text does. What is asked
about a state is answered by the first of its tokens. Taking that one leads to another such state,
or fails and changes nothing, or finds the fault that the text ends with. The states are in one
line, which no part of the parser leaves; a program is read at its end. -/
theorem tokens_taken_in_order (hprime : State.prime source.toList = .ok s₀) :
    (∀ taken s, s₀.Takes taken s →
      scan source =
        ⟨taken ++ s.lookahead.toList ++ s.scanner.feed.tokens, s.scanner.feed.fault?⟩ ∧
      s.kind? = nextKind s.feed.tokens ∧
      (∀ k, s.check k = true ↔ nextKind s.feed.tokens = some k) ∧
      (s.atEnd = true ↔ nextKind s.feed.tokens = none) ∧
      (∀ k t next shorter, s.eat k = .done t next shorter →
        t.kind = k ∧ s.lookahead = some t ∧ s₀.Takes (taken ++ [t]) next) ∧
      (∀ k f stop, s.eat k = .failed f stop →
        (∃ e t, f = .lexical e ∧ s.lookahead = some t ∧ scan source = ⟨taken ++ [t], some e⟩) ∨
          (∀ e, f ≠ .lexical e) ∧ stop = s) ∧
      ∀ (s₁ : State) (α : Type) (x : Step s₁ α), Part s x → x.Moves s) ∧
    (∀ ts us a b, s₀.Takes ts a → s₀.Takes us b →
      (∃ vs, us = ts ++ vs ∧ a.Takes vs b) ∨ ∃ vs, ts = us ++ vs ∧ b.Takes vs a) ∧
    (∀ p, parse source = .ok p →
      ∃ ts last shorter, s₀.statements none = .done p.statements last shorter ∧ s₀.Takes ts last ∧
        last.lookahead = none ∧ tokenize source = .ok ts) ∧
    ∀ f, parse source = .error f →
      ∃ ts last stop, s₀.statements none = .failed f stop ∧ s₀.Takes ts last ∧
        last.Halts f stop := by
  refine ⟨?_, fun ts us a b ha hb => ha.linear hb, fun p => takes_all_of_parse hprime,
    fun f => halts_of_parse hprime⟩
  intro taken s hs
  obtain ⟨hready, hscan⟩ := hs.scan_eq hprime
  refine ⟨?_, hready.kind?_eq, fun k => hready.check_iff, hready.atEnd_iff, ?_,
    fun k f stop => hs.scan_of_lexical hprime, fun _ _ _ => Part.moves⟩
  · rw [List.append_assoc]
    exact hscan
  · intro k t next shorter heat
    obtain ⟨hk, hl⟩ := State.eat_eq_done heat
    exact ⟨hk, hl, hs.concat heat⟩

theorem tokens_taken_of_statement :
    ∃ s₀ ts last, State.prime "a;".toList = .ok s₀ ∧ s₀.Takes ts last ∧ last.lookahead = none ∧
      tokenize "a;" = .ok ts := by
  have hfault : (scan "a;").fault? = none := by decide +kernel
  have hkinds : consumeAll programGoals ((scan "a;").tokens.map Token.kind) =
      some [.statements none] := by decide +kernel
  obtain ⟨p, -, hparse⟩ := parse_of_kinds hfault hkinds rfl
  cases hprime : State.prime "a;".toList with
  | error e =>
    rw [scan, State.feed_of_prime_error hprime] at hfault
    cases hfault
  | ok s₀ =>
    obtain ⟨ts, last, -, -, hts, hlast, htokens⟩ := (tokens_taken_in_order hprime).2.2.1 p hparse
    exact ⟨s₀, ts, last, rfl, hts, hlast, htokens⟩

end Line

end Scriptlet
