import Scriptlet.Proofs.Scan.Standing
import Scriptlet.Proofs.Syntax.Viable

/-!
# Scriptlet.Proofs.Syntax.Expectation

What faults say about the tokens of a text:

* `Orderly gs`         — an agenda outside of parameters, in which the token that ends a list of
                         statements follows each of them.
* `parametersUpTo n`   — the kinds of a function up to where a parameter may stand after `n` others.
* `AgendaAfter ks gs`  — the agenda `gs` as it is after tokens of the kinds `ks`.

An agenda takes a token of the kind that it asks for in place of another one
(`AgendaAfter.asks_again`), so the kind that a fault asks for can follow what was read.
`AgendaAfter` is kept by each token that is taken (`AgendaAfter.consume`). It tells where parameters
are read, and so where the fused token is reported as a comma.
-/

namespace Scriptlet

/-! ## Agendas outside of parameters -/

/-- Whether a goal has no part in parameters and may stand before any other goal. -/
def Goal.plain : Goal → Bool
  | token k => k != .functionWord
  | statements _ | parameters | parameter | afterParameter => false
  | _ => true

inductive Orderly : List Goal → Prop where
  | nil : Orderly []
  | plain {g : Goal} {gs : List Goal} : g.plain = true → Orderly gs → Orderly (g :: gs)
  | program : Orderly [.statements none]
  | body {gs : List Goal} : Orderly gs →
      Orderly (.statements (some .closeBrace) :: .token .closeBrace :: gs)

/-- An agenda after a token of a kind was taken outside of parameters. -/
inductive GoesOn : Kind → List Goal → Prop where
  | function {gs : List Goal} : Orderly gs →
      GoesOn .functionWord (.token .identifier :: .parameters :: gs)
  | other {k : Kind} {gs : List Goal} : k ≠ .functionWord → Orderly gs → GoesOn k gs

theorem Orderly.append {gs hs : List Goal} (hplain : gs.all Goal.plain = true) (h : Orderly hs) :
    Orderly (gs ++ hs) := by
  induction gs with
  | nil => exact h
  | cons g gs ih =>
    rw [List.all_cons, Bool.and_eq_true] at hplain
    exact .plain hplain.1 (ih hplain.2)

namespace Demand

theorem expression_goesOn {gs : List Goal} (h : Orderly gs) (next? : Option Kind) :
    GoesOn (expression next?).kind ((expression next?).after ++ gs) := by
  unfold expression
  split
  · exact .other (by decide) (h.append rfl)
  · refine .other ?_ (h.append rfl)
    unfold leafKind
    split <;> decide

theorem statement_goesOn {gs : List Goal} (h : Orderly gs) (next? : Option Kind) :
    GoesOn (statement next?).kind ((statement next?).after ++ gs) := by
  unfold statement
  split
  · exact .other (by decide) (.body h)
  · exact .other (by decide) (h.append rfl)
  · exact .other (by decide) (h.append rfl)
  · exact .function (.plain rfl h)
  · rw [andThen, List.append_assoc]
    exact expression_goesOn (h.append rfl) next?

theorem reported?_statement (next? : Option Kind) : (statement next?).reported? = none := by
  cases next? with
  | none => rfl
  | some k => cases k <;> rfl

/-- A statement that begins as one has to begin is asked for by its first token. -/
theorem kind_statement_again (next? : Option Kind) :
    (statement (some (statement next?).kind)).kind = (statement next?).kind := by
  cases next? with
  | none => rfl
  | some k => cases k <;> rfl

/-- A statement does not begin with the token that ends a list of them. -/
theorem kind_statement_ne (next? : Option Kind) :
    (statement next?).kind ≠ .closeBrace := by
  cases next? with
  | none => decide
  | some k => cases k <;> decide

end Demand

theorem Goal.demand_goesOn {g : Goal} (hg : g.plain = true) {next? : Option Kind} {d : Demand}
    (hd : g.demand next? = some d) {gs : List Goal} (h : Orderly gs) :
    GoesOn d.kind (d.after ++ gs) ∧ d.reported? = none := by
  cases g with
  | token k =>
    cases hd
    exact ⟨.other (by simpa [Goal.plain] using hg) h, rfl⟩
  | expression =>
    cases hd
    refine ⟨Demand.expression_goesOn h next?, ?_⟩
    unfold Demand.expression
    split <;> rfl
  | chain =>
    rw [Goal.demand] at hd
    split at hd <;> cases hd
    exact ⟨.other (by decide) (h.append rfl), rfl⟩
  | statement =>
    cases hd
    exact ⟨Demand.statement_goesOn h next?, Demand.reported?_statement next?⟩
  | block =>
    cases hd
    exact ⟨.other (by decide) (.body h), rfl⟩
  | branch =>
    cases hd
    exact ⟨.other (by decide) (h.append rfl), rfl⟩
  | alternate =>
    rw [Goal.demand] at hd
    split at hd <;> cases hd
    exact ⟨.other (by decide) (h.append rfl), rfl⟩
  | elseBody =>
    rw [Goal.demand] at hd
    split at hd <;> cases hd
    · exact ⟨.other (by decide) (h.append rfl), rfl⟩
    · exact ⟨.other (by decide) (.body h), rfl⟩
  | statements stop => cases hg
  | parameters => cases hg
  | parameter => cases hg
  | afterParameter => cases hg

/-- A list of statements asks for one of them, or the goals after it are asked. -/
theorem demandOf_statements_cases {stop next? : Option Kind} {gs : List Goal} {d : Demand}
    (hd : demandOf (.statements stop :: gs) next? = some d) :
    demandOf gs next? = some d ∨
      d = (Demand.statement next?).andThen (.statements stop :: gs) := by
  by_cases h : next? = none ∨ next? = stop
  · have hnone : (Goal.statements stop).demand next? = none := if_pos h
    rw [demandOf_cons_none hnone] at hd
    exact .inl hd
  · have hsome : (Goal.statements stop).demand next? = _ := if_neg h
    rw [demandOf_cons_some hsome] at hd
    cases hd
    right
    simp [Demand.andThen]

theorem Orderly.demandOf {gs : List Goal} (h : Orderly gs) {next? : Option Kind} {d : Demand}
    (hd : demandOf gs next? = some d) : GoesOn d.kind d.after ∧ d.reported? = none := by
  induction h with
  | nil => cases hd
  | @plain g gs hg h ih =>
    cases hdemand : g.demand next? with
    | some d' =>
      rw [demandOf_cons_some hdemand] at hd
      cases hd
      exact Goal.demand_goesOn hg hdemand h
    | none =>
      rw [demandOf_cons_none hdemand] at hd
      exact ih hd
  | program =>
    rcases demandOf_statements_cases hd with hend | rfl
    · cases hend
    · exact ⟨Demand.statement_goesOn .program next?, Demand.reported?_statement next?⟩
  | @body gs h ih =>
    rcases demandOf_statements_cases hd with hend | rfl
    · cases hend
      have hne : Kind.closeBrace ≠ .functionWord := by decide
      exact ⟨.other hne h, rfl⟩
    · exact ⟨Demand.statement_goesOn (.body h) next?, Demand.reported?_statement next?⟩

/-! ## Asking again -/

/-- An agenda that asks for a token of the kind of the next one. -/
def Asks (gs : List Goal) (k : Kind) : Prop := ∃ d, demandOf gs (some k) = some d ∧ d.kind = k

theorem consume_of_asks {gs : List Goal} {k : Kind} (h : Asks gs k) :
    ∃ hs, consume gs k = some hs := by
  obtain ⟨d, hd, hk⟩ := h
  exact ⟨d.after, by rw [consume, hd]; exact if_pos hk⟩

theorem asks_of_demand {g : Goal} {k : Kind} {d : Demand} (hd : g.demand (some k) = some d)
    (hk : d.kind = k) (gs : List Goal) : Asks (g :: gs) k :=
  ⟨d.andThen gs, demandOf_cons_some hd gs, hk⟩

theorem Demand.kind_expression_again (next? : Option Kind) :
    (expression (some (expression next?).kind)).kind = (expression next?).kind := by
  cases next? with
  | none => rfl
  | some k => cases k <;> rfl

theorem demand_parameter (next? : Option Kind) :
    Goal.parameter.demand next? = some ⟨.closeParen, [], none⟩ ∨
      Goal.parameter.demand next? = some ⟨.identifier, [.afterParameter], none⟩ := by
  rw [Goal.demand]
  split
  · exact .inl rfl
  · exact .inr rfl

theorem demand_afterParameter (next? : Option Kind) :
    Goal.afterParameter.demand next? = some ⟨.closeParen, [], none⟩ ∨
      Goal.afterParameter.demand next? = some ⟨.comma, [.parameter], none⟩ ∨
      next? = some .commaCloseParen ∧
        Goal.afterParameter.demand next? = some ⟨.closeParen, [], some .comma⟩ := by
  simp only [Goal.demand]
  split
  · exact .inl rfl
  · split
    · rename_i hfused
      exact .inr (.inr ⟨hfused, rfl⟩)
    · exact .inr (.inl rfl)

/-- A goal that asks for a kind asks for it again when a token of that kind comes. -/
theorem Goal.asks_again {g : Goal} (hg : ∀ stop, g ≠ .statements stop) {next? : Option Kind}
    {d : Demand} (hd : g.demand next? = some d) (gs : List Goal) : Asks (g :: gs) d.kind := by
  cases g with
  | token k =>
    cases hd
    exact asks_of_demand rfl rfl gs
  | expression =>
    cases hd
    exact asks_of_demand rfl (Demand.kind_expression_again next?) gs
  | statement =>
    cases hd
    exact asks_of_demand rfl (Demand.kind_statement_again next?) gs
  | block =>
    cases hd
    exact asks_of_demand rfl rfl gs
  | parameters =>
    cases hd
    exact asks_of_demand rfl rfl gs
  | branch =>
    cases hd
    exact asks_of_demand rfl rfl gs
  | chain =>
    rw [Goal.demand] at hd
    split at hd <;> cases hd
    exact asks_of_demand rfl rfl gs
  | alternate =>
    rw [Goal.demand] at hd
    split at hd <;> cases hd
    exact asks_of_demand rfl rfl gs
  | parameter =>
    rcases demand_parameter next? with h | h <;> cases h.symm.trans hd
    · exact asks_of_demand rfl rfl gs
    · exact asks_of_demand rfl rfl gs
  | afterParameter =>
    rcases demand_afterParameter next? with h | h | ⟨-, h⟩ <;> cases h.symm.trans hd
    · exact asks_of_demand rfl rfl gs
    · exact asks_of_demand rfl rfl gs
    · exact asks_of_demand (d := ⟨.closeParen, [], none⟩) rfl rfl gs
  | elseBody =>
    rw [Goal.demand] at hd
    split at hd <;> cases hd
    · exact asks_of_demand rfl rfl gs
    · exact asks_of_demand rfl rfl gs
  | statements stop => exact absurd rfl (hg stop)

/-- A goal for which nothing has to come asks for no other token than the next one. -/
theorem Goal.kind_of_absent {g : Goal} (hg : g.plain = true) {next? : Option Kind}
    (hnone : g.demand next? = none) {k : Kind} {d : Demand} (hd : g.demand (some k) = some d) :
    d.kind = k := by
  cases g with
  | chain =>
    rw [Goal.demand] at hd
    split at hd <;> cases hd
    rename_i hk
    exact (Option.some.inj hk).symm
  | alternate =>
    rw [Goal.demand] at hd
    split at hd <;> cases hd
    rename_i hk
    exact (Option.some.inj hk).symm
  | elseBody =>
    rw [Goal.demand] at hnone
    split at hnone <;> cases hnone
  | statements stop => cases hg
  | parameters => cases hg
  | parameter => cases hg
  | afterParameter => cases hg
  | _ => cases hnone

theorem Goal.ne_statements {g : Goal} (hg : g.plain = true) (stop : Option Kind) :
    g ≠ .statements stop := by
  rintro rfl
  cases hg

theorem asks_statements {stop next? : Option Kind} (hstop : stop = none ∨ stop = some .closeBrace)
    (gs : List Goal) : Asks (.statements stop :: gs) (Demand.statement next?).kind := by
  have hgoes : ¬ (some (Demand.statement next?).kind = none ∨
      some (Demand.statement next?).kind = stop) := by
    rintro (heq | rfl)
    · cases heq
    · rcases hstop with heq | heq
      · cases heq
      · exact Demand.kind_statement_ne next? (Option.some.inj heq)
  have hdemand : (Goal.statements stop).demand (some (Demand.statement next?).kind) = _ :=
    if_neg hgoes
  exact asks_of_demand hdemand (Demand.kind_statement_again next?) gs

theorem Orderly.asks_again {gs : List Goal} (h : Orderly gs) {next? : Option Kind} {d : Demand}
    (hd : Scriptlet.demandOf gs next? = some d) : Asks gs d.kind := by
  induction h with
  | nil => cases hd
  | @plain g gs hg h ih =>
    cases hdemand : g.demand next? with
    | some d' =>
      rw [demandOf_cons_some hdemand] at hd
      cases hd
      exact Goal.asks_again (Goal.ne_statements hg) hdemand gs
    | none =>
      rw [demandOf_cons_none hdemand] at hd
      -- A goal that nothing had to come for may ask now, but only for the token that comes.
      cases hagain : g.demand (some d.kind) with
      | some d' => exact asks_of_demand hagain (Goal.kind_of_absent hg hdemand hagain) gs
      | none =>
        obtain ⟨d', hd', hk⟩ := ih hd
        exact ⟨d', by rw [demandOf_cons_none hagain, hd'], hk⟩
  | program =>
    rcases demandOf_statements_cases hd with hend | rfl
    · cases hend
    · exact asks_statements (.inl rfl) []
  | @body gs h ih =>
    rcases demandOf_statements_cases hd with hend | rfl
    · cases hend
      exact ⟨_, rfl, rfl⟩
    · exact asks_statements (.inr rfl) _

/-! ## Where parameters stand -/

def parametersUpTo (n : Nat) : List Kind :=
  [.functionWord, .identifier, .openParen] ++ (List.replicate n [.identifier, .comma]).flatten

/-- Kinds that end in the name of a parameter. -/
def EndsInParameter (ks : List Kind) : Prop := ∃ n, parametersUpTo n ++ [.identifier] <:+ ks

inductive AgendaAfter : List Kind → List Goal → Prop where
  | outside {ks : List Kind} {gs : List Goal} : Orderly gs → AgendaAfter ks gs
  | name {ks : List Kind} {gs : List Goal} : Orderly gs → [.functionWord] <:+ ks →
      AgendaAfter ks (.token .identifier :: .parameters :: gs)
  | parameters {ks : List Kind} {gs : List Goal} : Orderly gs →
      [.functionWord, .identifier] <:+ ks → AgendaAfter ks (.parameters :: gs)
  | parameter {ks : List Kind} {gs : List Goal} {n : Nat} : Orderly gs →
      parametersUpTo n <:+ ks → AgendaAfter ks (.parameter :: gs)
  | afterParameter {ks : List Kind} {gs : List Goal} : Orderly gs → EndsInParameter ks →
      AgendaAfter ks (.afterParameter :: gs)

theorem suffix_concat {ks ls : List Kind} (h : ks <:+ ls) (k : Kind) : ks ++ [k] <:+ ls ++ [k] := by
  obtain ⟨before, rfl⟩ := h
  exact ⟨before, (List.append_assoc _ _ _).symm⟩

theorem parametersUpTo_succ (n : Nat) :
    parametersUpTo (n + 1) = parametersUpTo n ++ [.identifier] ++ [.comma] := by
  simp [parametersUpTo, List.replicate_succ', List.flatten_append]

theorem consume_of_demand {g : Goal} {k : Kind} {d : Demand} (hd : g.demand (some k) = some d)
    {gs hs : List Goal} (h : consume (g :: gs) k = some hs) : d.kind = k ∧ hs = d.after ++ gs := by
  rw [consume, demandOf_cons_some hd] at h
  by_cases hk : (d.andThen gs).kind = k
  · exact ⟨hk, (Option.some.inj ((if_pos hk).symm.trans h)).symm⟩
  · cases (if_neg hk).symm.trans h

/-- Outside of parameters an agenda goes on by the token that it takes. -/
theorem Orderly.consume {gs hs : List Goal} {k : Kind} (h : Orderly gs)
    (hc : consume gs k = some hs) : GoesOn k hs := by
  rw [Scriptlet.consume] at hc
  split at hc
  · rename_i d hd
    split at hc <;> cases hc
    rename_i hk
    obtain ⟨hgoes, -⟩ := h.demandOf hd
    rwa [hk] at hgoes
  · cases hc

namespace AgendaAfter

variable {ks ls : List Kind} {gs hs : List Goal} {k : Kind}

theorem consume (h : AgendaAfter ks gs) (hc : consume gs k = some hs) :
    AgendaAfter (ks ++ [k]) hs := by
  cases h with
  | outside h =>
    cases h.consume hc with
    | function hrest => exact .name hrest (List.suffix_append ks _)
    | other _ hrest => exact .outside hrest
  | name h hks =>
    obtain ⟨rfl, rfl⟩ := consume_of_demand (d := ⟨.identifier, [], none⟩) rfl hc
    exact .parameters h (suffix_concat hks _)
  | parameters h hks =>
    obtain ⟨rfl, rfl⟩ := consume_of_demand (d := ⟨.openParen, [.parameter], none⟩) rfl hc
    exact .parameter (n := 0) h (suffix_concat hks _)
  | @parameter _ n h hks =>
    rcases demand_parameter (some k) with hd | hd
    · obtain ⟨-, rfl⟩ := consume_of_demand hd hc
      exact .outside h
    · obtain ⟨rfl, rfl⟩ := consume_of_demand hd hc
      exact .afterParameter h ⟨n, suffix_concat hks _⟩
  | afterParameter h hks =>
    rcases demand_afterParameter (some k) with hd | hd | ⟨-, hd⟩
    · obtain ⟨-, rfl⟩ := consume_of_demand hd hc
      exact .outside h
    · obtain ⟨rfl, rfl⟩ := consume_of_demand hd hc
      obtain ⟨n, hn⟩ := hks
      refine .parameter (n := n + 1) h ?_
      rw [parametersUpTo_succ]
      exact suffix_concat hn _
    -- The fused token is refused, so what was taken here is the parenthesis that was asked for.
    · obtain ⟨-, rfl⟩ := consume_of_demand hd hc
      exact .outside h

theorem consumeAll (h : AgendaAfter ks gs) (hc : consumeAll gs ls = some hs) :
    AgendaAfter (ks ++ ls) hs := by
  induction ls generalizing ks gs with
  | nil =>
    cases hc
    rwa [List.append_nil]
  | cons k ls ih =>
    rw [Scriptlet.consumeAll] at hc
    split at hc
    · rename_i gs' hgs'
      have hnext := ih (h.consume hgs') hc
      rwa [List.append_assoc] at hnext
    · cases hc

theorem of_program (h : Scriptlet.consumeAll programGoals ks = some gs) : AgendaAfter ks gs := by
  have hstart : AgendaAfter [] programGoals := .outside (.plain rfl .program)
  exact hstart.consumeAll h

/-- The name of a function and its parameters follow where the word is taken. -/
theorem consume_functionWord (h : AgendaAfter ks gs)
    (hc : Scriptlet.consume gs .functionWord = some hs) :
    ∃ rest, hs = .token .identifier :: .parameters :: rest := by
  cases h with
  | outside h =>
    cases h.consume hc with
    | function _ => exact ⟨_, rfl⟩
    | other hne _ => exact absurd rfl hne
  | name => cases hc
  | parameters => cases hc
  | parameter => cases hc
  | afterParameter => cases hc

theorem asks_again {next? : Option Kind} {d : Demand} (h : AgendaAfter ks gs)
    (hd : demandOf gs next? = some d) : Asks gs d.kind := by
  have asks : ∀ {g : Goal} {d' : Demand} {rest : List Goal}, (∀ stop, g ≠ .statements stop) →
      g.demand next? = some d' → demandOf (g :: rest) next? = some d →
      Asks (g :: rest) d.kind := by
    intro g d' rest hg hd' hd
    rw [demandOf_cons_some hd'] at hd
    cases hd
    exact Goal.asks_again hg hd' rest
  cases h with
  | outside h => exact h.asks_again hd
  | name h _ => exact asks (by simp) rfl hd
  | parameters h _ => exact asks (by simp) rfl hd
  | parameter h _ =>
    rcases demand_parameter next? with hd' | hd'
    · exact asks (by simp) hd' hd
    · exact asks (by simp) hd' hd
  | afterParameter h _ =>
    rcases demand_afterParameter next? with hd' | hd' | ⟨-, hd'⟩
    · exact asks (by simp) hd' hd
    · exact asks (by simp) hd' hd
    · exact asks (by simp) hd' hd

/-- Only the fused token after a parameter is reported as another one. -/
theorem reported? {d : Demand} (h : AgendaAfter ks gs) (hd : demandOf gs (some k) = some d) :
    d.reported? = none ∨
      d.reported? = some .comma ∧ d.kind = .closeParen ∧ k = .commaCloseParen ∧
        EndsInParameter ks := by
  cases h with
  | outside h => exact .inl (h.demandOf hd).2
  | name h _ =>
    cases hd
    exact .inl rfl
  | parameters h _ =>
    cases hd
    exact .inl rfl
  | parameter h _ =>
    rcases demand_parameter (some k) with hd' | hd' <;> rw [demandOf_cons_some hd'] at hd <;>
      cases hd
    · exact .inl rfl
    · exact .inl rfl
  | afterParameter h hks =>
    rcases demand_afterParameter (some k) with hd' | hd' | ⟨hk, hd'⟩ <;>
      rw [demandOf_cons_some hd'] at hd <;> cases hd
    · exact .inl rfl
    · exact .inl rfl
    · exact .inr ⟨rfl, rfl, Option.some.inj hk, hks⟩

/-- A token that is refused is not reported as one of the kind that was asked for. -/
theorem reported_ne {d : Demand} (h : AgendaAfter ks gs) (hd : demandOf gs (some k) = some d)
    (hne : d.kind ≠ k) : d.reported?.getD k ≠ d.kind := by
  rcases h.reported? hd with hnone | ⟨hcomma, hclose, -⟩
  · rw [hnone]
    exact hne.symm
  · rw [hcomma, hclose, Option.getD_some]
    decide

end AgendaAfter

/-! ## After a parameter -/

theorem consumeAll_parameters (n : Nat) (gs : List Goal) :
    consumeAll (.parameter :: gs) ((List.replicate n [Kind.identifier, .comma]).flatten) =
      some (.parameter :: gs) := by
  induction n with
  | zero => rfl
  | succ n ih => exact ih

/-- After the name of a parameter the agenda says what may follow one. -/
theorem exists_afterParameter {ks : List Kind} {gs : List Goal}
    (h : consumeAll programGoals ks = some gs) (hks : EndsInParameter ks) :
    ∃ rest, gs = .afterParameter :: rest := by
  obtain ⟨n, before, rfl⟩ := hks
  rw [consumeAll_append] at h
  obtain ⟨now, hnow, hgs⟩ := Option.bind_eq_some_iff.1 h
  rw [parametersUpTo, List.append_assoc, List.cons_append, consumeAll] at hgs
  split at hgs
  · rename_i left hleft
    obtain ⟨rest, rfl⟩ := (AgendaAfter.of_program hnow).consume_functionWord hleft
    -- The name and the parenthesis lead to the parameters, which lead to themselves.
    have hloop := consumeAll_append (.parameter :: rest)
      (List.replicate n [Kind.identifier, .comma]).flatten [.identifier]
    rw [consumeAll_parameters] at hloop
    exact ⟨rest, (Option.some.inj (hloop.symm.trans hgs)).symm⟩
  · cases hgs

/-! ## Faults -/

/-- The kind that an agenda asks for can come. -/
theorem viable_of_demand {ks : List Kind} {gs : List Goal} {next? : Option Kind} {d : Demand}
    (h : consumeAll programGoals ks = some gs) (hd : demandOf gs next? = some d) :
    Viable (ks ++ [d.kind]) := by
  obtain ⟨hs, hhs⟩ := consume_of_asks ((AgendaAfter.of_program h).asks_again hd)
  rw [viable_iff, consumeAll_append, h, Option.bind_some, consumeAll, hhs]
  rfl

/-- The fused token after the name of a parameter is a comma in place of a parenthesis. -/
theorem demand_of_fused {ks : List Kind} {gs : List Goal} {d : Demand}
    (h : consumeAll programGoals ks = some gs) (hks : EndsInParameter ks)
    (hd : demandOf gs (some .commaCloseParen) = some d) :
    d.reported? = some .comma ∧ d.kind = .closeParen := by
  obtain ⟨rest, rfl⟩ := exists_afterParameter h hks
  cases hd
  exact ⟨rfl, rfl⟩

theorem found_ne_expected {source : String} {found expected : Kind} {p : Position}
    (h : parse source = .error (.unexpectedToken found expected p)) : found ≠ expected := by
  cases stops_of_parse h with
  | token htokens hpass hd hne =>
    obtain ⟨now, hnow, hsame⟩ := hpass
    rw [nextKind_cons, hd] at hsame
    exact (AgendaAfter.of_program hnow).reported_ne hsame hne

/-- What a fault asks for can follow what was read. The kind that it finds is that of the token at
which it stands, but for the fused token after the name of a parameter. -/
theorem expected_can_come (source : String) :
    (∀ found expected position,
      parse source = .error (.unexpectedToken found expected position) →
      ∃ i t, (scan source).tokens[i]? = some t ∧
        (∀ j u, (scan source).tokens[j]? = some u → (u.position = position ↔ j = i)) ∧
        Viable ((scan source).kinds.take i ++ [expected]) ∧ found ≠ expected ∧
        (t.kind = .commaCloseParen ∧ EndsInParameter ((scan source).kinds.take i) →
          found = .comma ∧ expected = .closeParen) ∧
        (¬ (t.kind = .commaCloseParen ∧ EndsInParameter ((scan source).kinds.take i)) →
          found = t.kind)) ∧
    ∀ expected, parse source = .error (.unexpectedEnd expected) →
      ∃ ts, tokenize source = .ok ts ∧ Viable (ts.map Token.kind ++ [expected]) := by
  constructor
  · intro found expected position h
    cases stops_of_parse h with
    | @token read rest t left d htokens hpass hd hne =>
      have hindex : (scan source).tokens[read.length]? = some t := by simp [htokens]
      have htake : (scan source).kinds.take read.length = read.map Token.kind := by
        rw [Feed.kinds, htokens, List.map_append, List.take_left' (by simp)]
      obtain ⟨now, hnow, hsame⟩ := hpass
      rw [nextKind_cons, hd] at hsame
      have hafter := AgendaAfter.of_program hnow
      refine ⟨read.length, t, hindex, fun j u hu => index_unique hindex hu, ?_⟩
      rw [htake]
      refine ⟨viable_of_demand hnow hsame, hafter.reported_ne hsame hne, ?_, ?_⟩
      · rintro ⟨hfused, hends⟩
        rw [hfused] at hsame
        obtain ⟨hcomma, hclose⟩ := demand_of_fused hnow hends hsame
        exact ⟨by rw [hcomma, Option.getD_some], hclose⟩
      · intro hplain
        rcases hafter.reported? hsame with hnone | ⟨-, -, hfused⟩
        · rw [hnone, Option.getD_none]
        · exact absurd hfused hplain
  · intro expected h
    cases stops_of_parse h with
    | ending hfault hpass hd =>
      obtain ⟨now, hnow, hsame⟩ := hpass
      have hts : scan source = ⟨(scan source).tokens, none⟩ := by rw [← hfault]
      exact ⟨_, tokenize_eq_ok_iff.2 hts, viable_of_demand hnow (hsame.trans hd)⟩

/-- Parameters that end in a comma ask for the parenthesis in place of the fused token, and a text
that ends after a name asks for a semicolon. -/
theorem expected_can_come_comma :
    parse "function f(a,)" = .error (.unexpectedToken .comma .closeParen ⟨1, 12⟩) ∧
      Viable [.functionWord, .identifier, .openParen, .identifier, .closeParen] ∧
      parse "a" = .error (.unexpectedEnd .semicolon) ∧ Viable [.identifier, .semicolon] := by
  have hscan : scan "function f(a,)" =
      ⟨[⟨.functionWord, "function", ⟨1, 0⟩⟩, ⟨.identifier, "f", ⟨1, 9⟩⟩, ⟨.openParen, "(", ⟨1, 10⟩⟩,
        ⟨.identifier, "a", ⟨1, 11⟩⟩] ++ [⟨.commaCloseParen, ",)", ⟨1, 12⟩⟩], none⟩ := by
    decide +kernel
  have hparse : parse "function f(a,)" =
      .error (.unexpectedToken .comma .closeParen ⟨1, 12⟩) := by
    refine parse_of_stops ?_
    rw [hscan]
    have hdemand : demandOf [.afterParameter, .block, .statements none] (some .commaCloseParen) =
        some ⟨.closeParen, [.block, .statements none], some .comma⟩ := rfl
    exact .token (t := ⟨.commaCloseParen, ",)", ⟨1, 12⟩⟩) rfl ⟨_, rfl, rfl⟩ hdemand (by decide)
  have hname : scan "a" = ⟨[⟨.identifier, "a", ⟨1, 0⟩⟩], none⟩ := by decide +kernel
  have hend : parse "a" = .error (.unexpectedEnd .semicolon) := by
    refine parse_of_stops ?_
    rw [hname]
    exact .ending (d := ⟨.semicolon, [.statements none], none⟩) rfl
      ⟨[.chain, .token .semicolon, .statements none], rfl, rfl⟩ rfl
  obtain ⟨i, t, -, hposition, hviable, -⟩ := (expected_can_come "function f(a,)").1 _ _ _ hparse
  obtain ⟨ts, hts, hnext⟩ := (expected_can_come "a").2 _ hend
  rw [hscan] at hposition hviable
  obtain rfl : 4 = i := (hposition 4 _ rfl).1 rfl
  rw [tokenize_eq_ok_iff, hname] at hts
  cases hts
  exact ⟨hparse, hviable, hend, hnext⟩

end Scriptlet
