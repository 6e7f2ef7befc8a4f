import Scriptlet.Proofs.Syntax.ReadingExpression

/-!
# Scriptlet.Proofs.Syntax.ReadingStatement

The parser of statements against the agenda and the relation `DerivesPhrase`. As for expressions,
there is one lemma for each function, and they rest on the same measure.
-/

namespace Scriptlet

/-! ## Parameters -/

/-- What a list of parameters is read from, after its parenthesis or after a comma. -/
inductive ReadsParameter : List Token → List String → Prop where
  | close {c : Token} : c.kind = .closeParen → ReadsParameter [c] []
  | name {n : Token} {ts : List Token} {ns : List String} : n.kind = .identifier →
      DerivesFurther ts ns → ReadsParameter (n :: ts) (n.lexeme :: ns)

theorem ReadsParameter.further {m : Token} {ts : List Token} {ns : List String}
    (h : ReadsParameter ts ns) (hm : m.kind = .comma) : DerivesFurther (m :: ts) ns := by
  cases h with
  | close hc => exact .trailing hm hc
  | name hn hts => exact .more hm hn hts

theorem ReadsParameter.parameters {o : Token} {ts : List Token} {ns : List String}
    (h : ReadsParameter ts ns) (ho : o.kind = .openParen) : DerivesParameters (o :: ts) ns := by
  cases h with
  | close hc => exact .none ho hc
  | name hn hts => exact .some ho hn hts

namespace State

theorem parametersFrom_close {s₀ s : State} (hready : s.Ready) (read : List String)
    (h : s.remaining < s₀.remaining) (hclose : s.check .closeParen = true) :
    Meets [.token .closeParen] s.feed
      (fun ts _ v => ∃ c, ts = [c] ∧ c.kind = .closeParen ∧ v = read.reverse)
      (parametersFrom s₀ read s h) := by
  have heat := eat_meets hready .closeParen
  rw [parametersFrom, if_pos hclose]
  cases hx : s.eat .closeParen with
  | failed f stop =>
    rw [hx] at heat
    exact heat
  | done c next shorter =>
    rw [hx] at heat
    obtain ⟨hready', ts, hfeed, ⟨rfl, hc, -⟩, hpass⟩ := heat
    exact ⟨hready', [c], hfeed, ⟨c, rfl, hc, rfl⟩, hpass⟩

/-- The fused token is refused after a parameter, and the comma in it is reported. -/
theorem stops_of_fused {s : State} {lexeme : String} {position : Position}
    (hl : s.lookahead = some ⟨.commaCloseParen, lexeme, position⟩) (gs : List Goal) :
    Stops (.afterParameter :: gs) s.feed (.unexpectedToken .comma .closeParen position) := by
  have htokens : s.feed.tokens =
      [] ++ ⟨.commaCloseParen, lexeme, position⟩ :: s.scanner.feed.tokens := by
    simp [feed, hl]
  have hd : demandOf (.afterParameter :: gs) (some .commaCloseParen) =
      some ⟨.closeParen, gs, some .comma⟩ := rfl
  have hne : Kind.closeParen ≠ .commaCloseParen := by decide
  exact Stops.token htokens (Passes.refl _ _) hd hne

/-- Where no parenthesis closes the list, alone or fused, a comma has to come. -/
theorem demand_comma {s : State} (h : s.Ready) (hclose : ¬ s.check .closeParen = true)
    (hfused : ∀ lexeme position,
      s.lookahead = some ⟨.commaCloseParen, lexeme, position⟩ → False) :
    Goal.afterParameter.demand (nextKind s.feed.tokens) = some ⟨.comma, [.parameter], none⟩ := by
  have hne : nextKind s.feed.tokens ≠ some .commaCloseParen := by
    rw [← h.kind?_eq, kind?]
    intro heq
    obtain ⟨⟨k, lexeme, position⟩, hl, rfl⟩ := Option.map_eq_some_iff.1 heq
    exact hfused lexeme position hl
  rw [Goal.demand, if_neg (h.ne_of_not_check hclose), if_neg hne]

theorem parametersFrom_meets {s₀ s : State} (hready : s.Ready) (read : List String)
    (h : s.remaining < s₀.remaining) :
    Meets [.parameter] s.feed
      (fun ts _ v => ∃ ns, ReadsParameter ts ns ∧ v = read.reverse ++ ns)
      (parametersFrom s₀ read s h) := by
  by_cases hclose : s.check .closeParen = true
  · refine Meets.taken (hready.check_iff.1 hclose) rfl ?_
    refine Meets.imp ?_ (parametersFrom_close hready read h hclose)
    intro ts next? v hread
    obtain ⟨c, rfl, hc, rfl⟩ := hread
    exact ⟨[], .close hc, (List.append_nil _).symm⟩
  · have hdemand : Goal.parameter.demand (nextKind s.feed.tokens) =
        some ⟨.identifier, [.afterParameter], none⟩ := by
      rw [Goal.demand, if_neg (hready.ne_of_not_check hclose)]
    refine Meets.demanded hdemand ?_
    rw [parametersFrom, if_neg hclose]
    refine Meets.follow (name_meets hready) ?_ ?_
    · intro f stop hx
      rw [hx]
    · intro name s₁ h₁ ts hx hready₁ hname
      obtain ⟨n, rfl, hn, rfl⟩ := hname
      simp only [hx]
      split
      · rename_i lexeme position hl
        exact stops_of_fused hl
      · rename_i hfused
        by_cases hclose₁ : s₁.check .closeParen = true
        · simp only [if_pos hclose₁]
          refine Meets.taken (hready₁.check_iff.1 hclose₁) rfl ?_
          refine Meets.imp ?_ (parametersFrom_close hready₁ (n.lexeme :: read) _ hclose₁)
          intro ts next? v hread
          obtain ⟨c, rfl, hc, rfl⟩ := hread
          exact ⟨[n.lexeme], .name hn (.close hc), List.reverse_cons⟩
        · simp only [if_neg hclose₁]
          refine Meets.demanded (demand_comma hready₁ hclose₁ hfused) ?_
          refine Meets.follow (eat_meets hready₁ .comma) ?_ ?_
          · intro f stop hx₁
            rw [hx₁]
          · intro m s₂ h₂ ts hx₁ hready₂ hread
            obtain ⟨rfl, hm, -⟩ := hread
            simp only [hx₁]
            refine Meets.imp ?_ (parametersFrom_meets hready₂ (n.lexeme :: read) _)
            intro ts next? v hread
            obtain ⟨ns, hns, rfl⟩ := hread
            refine ⟨n.lexeme :: ns, .name hn (hns.further hm), ?_⟩
            rw [List.reverse_cons, List.append_assoc]
            rfl
termination_by s.remaining

theorem parameters_meets {s : State} (h : s.Ready) :
    Meets [.parameters] s.feed (fun ts _ ns => DerivesParameters ts ns) s.parameters := by
  refine Meets.demanded rfl ?_
  rw [parameters]
  refine Meets.follow (eat_meets h .openParen) ?_ ?_
  · intro f stop hx
    rw [hx]
  · intro o s₁ h₁ read hx hready₁ hread
    obtain ⟨rfl, ho, -⟩ := hread
    simp only [hx]
    refine Meets.imp ?_ (parametersFrom_meets hready₁ [] h₁)
    intro ts next? _ hread
    obtain ⟨ns, hns, rfl⟩ := hread
    exact hns.parameters ho

/-! ## Statements -/

theorem endsList_iff {s : State} (h : s.Ready) {stop : Option Kind} :
    s.endsList stop = true ↔
      nextKind s.feed.tokens = none ∨ nextKind s.feed.tokens = stop := by
  unfold endsList
  rw [Bool.or_eq_true, h.atEnd_iff]
  cases stop with
  | none => simp
  | some k => rw [h.check_iff]

theorem expressionStatement_meets {s : State} (h : s.Ready) :
    Meets [.expression, .token .semicolon] s.feed
      (fun read _ x => DerivesPhrase .statement read x) s.expressionStatement := by
  refine Meets.seq (expression_meets h) ?_
  intro e s₁ h₁ read hready₁ hread
  obtain ⟨he, -⟩ := hread
  refine Meets.map (Meets.imp ?_ (eat_meets hready₁ .semicolon))
  intro ts next? t hread
  obtain ⟨rfl, ht, -⟩ := hread
  exact .expression he ht

mutual

theorem statement_meets {s : State} (h : s.Ready) :
    Meets [.statement] s.feed (fun read _ x => DerivesPhrase .statement read x) s.statement := by
  rw [statement, h.kind?_eq]
  split
  · rename_i hk
    refine Meets.same ?_ (Meets.map (Meets.imp ?_ (block_meets h)))
    · rw [hk]
      rfl
    · intro read next? b hb
      exact .block hb
  · rename_i hk
    exact forOf_meets h hk
  · rename_i hk
    refine Meets.same ?_ (Meets.map (Meets.imp ?_ (conditional_meets h)))
    · rw [hk]
      rfl
    · intro read next? b hb
      exact .conditional hb
  · rename_i hk
    exact function_meets h hk
  · rename_i hblock hforOf hbranch hfunction
    have hdemand : Goal.statement.demand (nextKind s.feed.tokens) =
        some ((Demand.expression (nextKind s.feed.tokens)).andThen [.token .semicolon]) := by
      rw [Goal.demand]
      unfold Demand.statement
      split
      · contradiction
      · contradiction
      · contradiction
      · contradiction
      · rfl
    have hexpression : Goal.expression.demand (nextKind s.feed.tokens) =
        some (Demand.expression (nextKind s.feed.tokens)) := rfl
    exact Meets.congr (demandOf_split hdemand hexpression) (expressionStatement_meets h)
termination_by (s.remaining, 1)

theorem statements_meets {s : State} (h : s.Ready) (stop : Option Kind) :
    Meets [.statement, .statements stop] s.feed
      (fun read next? v => DerivesPhrase .body read v ∧ v ≠ [] ∧ (next? = none ∨ next? = stop))
      (s.statements stop) := by
  rw [statements]
  refine Meets.follow (statement_meets h) ?_ ?_
  · intro f stop' hx
    rw [hx]
  · intro x s₁ h₁ read hx hready₁ hread
    simp only [hx]
    refine Meets.imp ?_ (statementsFrom_meets hready₁ stop [x] h₁)
    intro ts next? _ hread
    obtain ⟨ys, hys, rfl, hend⟩ := hread
    exact ⟨.cons hread hys, nofun, hend⟩
termination_by (s.remaining, 2)

theorem statementsFrom_meets {s₀ s : State} (hready : s.Ready) (stop : Option Kind)
    (xs : List Statement) (h : s.remaining < s₀.remaining) :
    Meets [.statements stop] s.feed
      (fun read next? v => ∃ ys, DerivesPhrase .body read ys ∧ v = xs.reverse ++ ys ∧
        (next? = none ∨ next? = stop))
      (statementsFrom s₀ stop xs s h) := by
  rw [statementsFrom]
  by_cases hend : s.endsList stop = true
  · rw [if_pos hend]
    have hnext := (endsList_iff hready).1 hend
    refine Meets.absent hready ?_ ⟨[], .nil, (List.append_nil _).symm, hnext⟩
    rw [Goal.demand, if_pos hnext]
  · rw [if_neg hend]
    have hnext := fun heq => hend ((endsList_iff hready).2 heq)
    refine Meets.congr (demandOf_statements hnext) ?_
    refine Meets.follow (statement_meets hready) ?_ ?_
    · intro f stop' hx
      rw [hx]
    · intro x s₁ h₁ read hx hready₁ hread
      simp only [hx]
      refine Meets.imp ?_ (statementsFrom_meets hready₁ stop (x :: xs) _)
      intro ts next? _ hread
      obtain ⟨ys, hys, rfl, hend'⟩ := hread
      refine ⟨x :: ys, .cons hread hys, ?_, hend'⟩
      rw [List.reverse_cons, List.append_assoc]
      rfl
termination_by (s.remaining, 2)

theorem block_meets {s : State} (h : s.Ready) :
    Meets [.block] s.feed (fun read _ b => DerivesPhrase .block read b) s.block := by
  refine Meets.demanded rfl ?_
  rw [block]
  refine Meets.seq (eat_meets h .openBrace) ?_
  intro _ s₁ h₁ _ hready₁ hread
  obtain ⟨rfl, ho, -⟩ := hread
  by_cases hend : s₁.endsList (some .closeBrace) = true
  · rw [if_pos hend]
    have hnext := (endsList_iff hready₁).1 hend
    have hnone : (Goal.statements (some .closeBrace)).demand (nextKind s₁.feed.tokens) = none := by
      rw [Goal.demand, if_pos hnext]
    refine Meets.congr (fun hs => demandOf_cons_none hnone _) ?_
    refine Meets.map (Meets.imp ?_ (eat_meets hready₁ .closeBrace))
    intro ts next? c hread
    obtain ⟨rfl, hc, -⟩ := hread
    exact .braces ho .nil hc
  · rw [if_neg hend]
    have hnext := fun heq => hend ((endsList_iff hready₁).2 heq)
    have hbody : Meets [.statements (some .closeBrace)] s₁.feed
        (fun read _ v => DerivesPhrase .body read v) (s₁.statements (some .closeBrace)) := by
      refine Meets.congr (demandOf_statements hnext) ?_
      refine Meets.imp ?_ (statements_meets hready₁ (some .closeBrace))
      intro read next? v hread
      obtain ⟨hv, -, -⟩ := hread
      exact hv
    refine Meets.seq hbody ?_
    intro b s₂ h₂ read hready₂ hb
    refine Meets.map (Meets.imp ?_ (eat_meets hready₂ .closeBrace))
    intro ts next? c hread
    obtain ⟨rfl, hc, -⟩ := hread
    exact .braces ho hb hc
termination_by (s.remaining, 0)

theorem function_meets {s : State} (h : s.Ready)
    (hk : nextKind s.feed.tokens = some .functionWord) :
    Meets [.statement] s.feed (fun read _ x => DerivesPhrase .statement read x) s.function := by
  refine Meets.taken hk rfl ?_
  rw [function]
  refine Meets.seq (eat_meets h .functionWord) ?_
  intro _ s₁ h₁ _ hready₁ hread
  obtain ⟨rfl, hf, -⟩ := hread
  refine Meets.seq (name_meets hready₁) ?_
  intro _ s₂ h₂ _ hready₂ hread
  obtain ⟨n, rfl, hn, rfl⟩ := hread
  refine Meets.seq (parameters_meets hready₂) ?_
  intro ps s₃ h₃ ts hready₃ hps
  refine Meets.map (Meets.imp ?_ (block_meets hready₃))
  intro us next? b hb
  have hfunction := DerivesPhrase.function hf hn hps hb
  exact hfunction
termination_by (s.remaining, 0)

theorem conditional_meets {s : State} (h : s.Ready) :
    Meets [.branch] s.feed (fun read _ b => DerivesPhrase .branch read b) s.conditional := by
  refine Meets.demanded rfl ?_
  rw [conditional]
  refine Meets.seq (eat_meets h .ifWord) ?_
  intro i s₁ h₁ _ hready₁ hread
  obtain ⟨rfl, hi, -⟩ := hread
  refine Meets.seq (eat_meets hready₁ .openParen) ?_
  intro o s₂ h₂ _ hready₂ hread
  obtain ⟨rfl, ho, -⟩ := hread
  refine Meets.seq (expression_meets hready₂) ?_
  intro e s₃ h₃ ts hready₃ hread
  obtain ⟨he, -⟩ := hread
  refine Meets.seq (eat_meets hready₃ .closeParen) ?_
  intro c s₄ h₄ _ hready₄ hread
  obtain ⟨rfl, hc, -⟩ := hread
  refine Meets.follow (block_meets hready₄) ?_ ?_
  · intro f stop hx
    rw [hx]
  · intro b s₅ h₅ us hx hready₅ hb
    simp only [hx]
    have whole : ∀ {vs : List Token} {a : Alternate}, DerivesPhrase .alternate vs a →
        DerivesPhrase .branch ([i] ++ ([o] ++ (ts ++ ([c] ++ (us ++ vs))))) (Branch.mk e b a) := by
      intro vs a ha
      have hbranch := DerivesPhrase.branch hi ho he hc hb ha
      simpa using hbranch
    by_cases helse : s₅.check .elseWord = true
    · rw [if_pos helse]
      refine Meets.taken (hready₅.check_iff.1 helse) rfl (Meets.weaken ?_)
      refine Meets.seq (eat_meets hready₅ .elseWord) ?_
      intro _ s₆ h₆ _ hready₆ hread
      obtain ⟨rfl, hw, -⟩ := hread
      refine Meets.map (Meets.imp ?_ (elseBody_meets hready₆))
      intro vs next? a ha
      exact whole (ha hw)
    · rw [if_neg helse]
      refine Meets.absent hready₅ ?_ (whole .absent)
      rw [Goal.demand, if_neg (hready₅.ne_of_not_check helse)]
termination_by (s.remaining, 0)

/-- What follows `else`. -/
theorem elseBody_meets {s : State} (h : s.Ready) :
    Meets [.elseBody] s.feed
      (fun read _ a => ∀ {w : Token}, w.kind = .elseWord → DerivesPhrase .alternate (w :: read) a)
      (if s.check .ifWord then s.conditional.map .branch else s.block.map .block) := by
  by_cases hbranch : s.check .ifWord = true
  · rw [if_pos hbranch]
    have hdemand : Goal.elseBody.demand (nextKind s.feed.tokens) =
        Goal.branch.demand (nextKind s.feed.tokens) := by
      rw [h.check_iff.1 hbranch]
      rfl
    refine Meets.same hdemand (Meets.map (Meets.imp ?_ (conditional_meets h)))
    intro read next? b hb w hw
    exact .elseBranch hw hb
  · rw [if_neg hbranch]
    have hdemand : Goal.elseBody.demand (nextKind s.feed.tokens) =
        Goal.block.demand (nextKind s.feed.tokens) := by
      simp [Goal.demand, h.ne_of_not_check hbranch]
    refine Meets.same hdemand (Meets.map (Meets.imp ?_ (block_meets h)))
    intro read next? b hb w hw
    exact .elseBlock hw hb
termination_by (s.remaining, 1)

theorem forOf_meets {s : State} (h : s.Ready) (hk : nextKind s.feed.tokens = some .forWord) :
    Meets [.statement] s.feed (fun read _ x => DerivesPhrase .statement read x) s.forOf := by
  refine Meets.taken hk rfl ?_
  rw [forOf]
  refine Meets.seq (eat_meets h .forWord) ?_
  intro _ s₁ h₁ _ hready₁ hread
  obtain ⟨rfl, hf, -⟩ := hread
  refine Meets.seq (eat_meets hready₁ .openParen) ?_
  intro _ s₂ h₂ _ hready₂ hread
  obtain ⟨rfl, ho, -⟩ := hread
  refine Meets.seq (eat_meets hready₂ .letWord) ?_
  intro _ s₃ h₃ _ hready₃ hread
  obtain ⟨rfl, hl, -⟩ := hread
  refine Meets.seq (name_meets hready₃) ?_
  intro _ s₄ h₄ _ hready₄ hread
  obtain ⟨x, rfl, hx, rfl⟩ := hread
  refine Meets.seq (eat_meets hready₄ .ofWord) ?_
  intro _ s₅ h₅ _ hready₅ hread
  obtain ⟨rfl, hw, -⟩ := hread
  refine Meets.seq (name_meets hready₅) ?_
  intro _ s₆ h₆ _ hready₆ hread
  obtain ⟨y, rfl, hy, rfl⟩ := hread
  refine Meets.seq (eat_meets hready₆ .closeParen) ?_
  intro _ s₇ h₇ _ hready₇ hread
  obtain ⟨rfl, hc, -⟩ := hread
  refine Meets.map (Meets.imp ?_ (block_meets hready₇))
  intro ts next? b hb
  exact .forOf hf ho hl hx hw hy hc hb
termination_by (s.remaining, 0)

end

end State

end Scriptlet
