import Scriptlet.Proofs.Syntax.Derivation

/-!
# Scriptlet.Proofs.Syntax.Agenda

What a parser has still to read, as a list of goals:

* `Goal`               — a token of a kind, or a part of the grammar.
* `Goal.demand`        — the token that has to come for a goal, by the kind of the next one, and the
                         goals that are left after it. There is none if nothing has to come.
* `consumeAll gs ks`   — the agenda after tokens of the kinds `ks`, if all of them are demanded.
* `programGoals`       — the agenda of a whole text.
* `Passes gs ts rest hs`  — reading `ts` before `rest` leads from the agenda `gs` to one that asks
                         for the same as `hs`.
* `Stops gs feed f`    — the fault `f` is met when the tokens of a feed are read by the agenda `gs`.

Goals for which nothing has to come stay on the agenda until the next token shows it, so `Passes`
compares agendas by their demands only. It composes (`Passes.trans`), and a fault after a part
that passes is a fault of the whole (`Stops.of_passes`). There is one fault at most
(`Stops.unique`), since nothing passes beyond a token that is refused (`Stops.read_prefix`).
-/

namespace Scriptlet

inductive Goal where
  | token (kind : Kind)
  | expression
  /-- What may follow an operand. -/
  | chain
  | statement
  | statements (stop : Option Kind)
  | block
  | parameters
  /-- Parameters, from where one of them may stand. -/
  | parameter
  | afterParameter
  | branch
  | alternate
  /-- What has to follow `else`. -/
  | elseBody
  deriving DecidableEq, Repr

structure Demand where
  kind : Kind
  after : List Goal
  /-- The kind that is reported in place of that of another token. -/
  reported? : Option Kind := none
  deriving DecidableEq, Repr

namespace Demand

def andThen (d : Demand) (gs : List Goal) : Demand := { d with after := d.after ++ gs }

/-- The kind of leaf that has to come. -/
def leafKind : Option Kind → Kind
  | some .number => .number
  | some .string => .string
  | some .boolean => .boolean
  | _ => .identifier

def expression : Option Kind → Demand
  | some .letWord =>
    { kind := .letWord, after := [.token .identifier, .token .assign, .expression] }
  | next? => { kind := leafKind next?, after := [.chain] }

def block : Demand :=
  { kind := .openBrace, after := [.statements (some .closeBrace), .token .closeBrace] }

def branch : Demand :=
  { kind := .ifWord
    after := [.token .openParen, .expression, .token .closeParen, .block, .alternate] }

def function : Demand :=
  { kind := .functionWord, after := [.token .identifier, .parameters, .block] }

def forOf : Demand :=
  { kind := .forWord
    after := [.token .openParen, .token .letWord, .token .identifier, .token .ofWord,
      .token .identifier, .token .closeParen, .block] }

def statement : Option Kind → Demand
  | some .openBrace => block
  | some .forWord => forOf
  | some .ifWord => branch
  | some .functionWord => function
  | next? => (expression next?).andThen [.token .semicolon]

end Demand

def Goal.demand : Goal → Option Kind → Option Demand
  | token k, _ => some { kind := k, after := [] }
  | expression, next? => some (.expression next?)
  | chain, next? =>
    if next? = some .operator then some { kind := .operator, after := [.expression] } else none
  | statement, next? => some (.statement next?)
  | statements stop, next? =>
    if next? = none ∨ next? = stop then none
    else some ((Demand.statement next?).andThen [.statements stop])
  | block, _ => some .block
  | parameters, _ => some { kind := .openParen, after := [.parameter] }
  | parameter, next? =>
    if next? = some .closeParen then some { kind := .closeParen, after := [] }
    else some { kind := .identifier, after := [.afterParameter] }
  | afterParameter, next? =>
    if next? = some .closeParen then some { kind := .closeParen, after := [] }
    else if next? = some .commaCloseParen then
      some { kind := .closeParen, after := [], reported? := some .comma }
    else some { kind := .comma, after := [.parameter] }
  | branch, _ => some .branch
  | alternate, next? =>
    if next? = some .elseWord then some { kind := .elseWord, after := [.elseBody] } else none
  | elseBody, next? => if next? = some .ifWord then some .branch else some .block

/-- The demand of an agenda is that of its first goal that has one. -/
def demandOf : List Goal → Option Kind → Option Demand
  | [], _ => none
  | g :: gs, next? =>
    match g.demand next? with
    | some d => some (d.andThen gs)
    | none => demandOf gs next?

def consume (gs : List Goal) (k : Kind) : Option (List Goal) :=
  match demandOf gs (some k) with
  | some d => if d.kind = k then some d.after else none
  | none => none

def consumeAll : List Goal → List Kind → Option (List Goal)
  | gs, [] => some gs
  | gs, k :: ks =>
    match consume gs k with
    | some gs' => consumeAll gs' ks
    | none => none

/-- The agenda of a whole program, for which at least one statement has to come. -/
def programGoals : List Goal := [.statement, .statements none]

def Passes (gs : List Goal) (ts rest : List Token) (hs : List Goal) : Prop :=
  ∃ left, consumeAll gs (ts.map Token.kind) = some left ∧
    demandOf left (nextKind rest) = demandOf hs (nextKind rest)

inductive Stops (gs : List Goal) (feed : Feed) : Fault → Prop where
  | lexical {left : List Goal} {fault : ScanFault} : feed.fault? = some fault →
      Passes gs feed.tokens [] left → Stops gs feed (.lexical fault)
  | token {read rest : List Token} {t : Token} {left : List Goal} {d : Demand} :
      feed.tokens = read ++ t :: rest → Passes gs read (t :: rest) left →
      demandOf left (some t.kind) = some d → d.kind ≠ t.kind →
      Stops gs feed (.unexpectedToken (d.reported?.getD t.kind) d.kind t.position)
  | ending {left : List Goal} {d : Demand} : feed.fault? = none →
      Passes gs feed.tokens [] left → demandOf left none = some d →
      Stops gs feed (.unexpectedEnd d.kind)

/-! ## Agendas that ask for the same -/

theorem demandOf_cons_some {g : Goal} {next? : Option Kind} {d : Demand}
    (h : g.demand next? = some d) (gs : List Goal) :
    demandOf (g :: gs) next? = some (d.andThen gs) := by
  simp [demandOf, h]

theorem demandOf_cons_none {g : Goal} {next? : Option Kind} (h : g.demand next? = none)
    (gs : List Goal) : demandOf (g :: gs) next? = demandOf gs next? := by
  simp [demandOf, h]

/-- A goal asks for what its demand says: the token, and then the goals after it. -/
theorem demandOf_unfold {g : Goal} {next? : Option Kind} {k : Kind} {after : List Goal}
    (h : g.demand next? = some { kind := k, after := after }) (gs : List Goal) :
    demandOf (g :: gs) next? = demandOf (.token k :: after ++ gs) next? := by
  rw [demandOf_cons_some h]
  rfl

/-- A goal that asks for what another one asks for, and then for more. -/
theorem demandOf_split {g g' : Goal} {next? : Option Kind} {d : Demand} {gs : List Goal}
    (h : g.demand next? = some (d.andThen gs)) (h' : g'.demand next? = some d) (hs : List Goal) :
    demandOf (g :: hs) next? = demandOf (g' :: gs ++ hs) next? := by
  rw [demandOf_cons_some h, List.cons_append, demandOf_cons_some h']
  simp [Demand.andThen]

/-- Where a list of statements does not end, one of them has to come. -/
theorem demandOf_statements {stop next? : Option Kind} (h : ¬ (next? = none ∨ next? = stop))
    (hs : List Goal) :
    demandOf ([.statements stop] ++ hs) next? =
      demandOf ([.statement, .statements stop] ++ hs) next? := by
  have hdemand : (Goal.statements stop).demand next? =
      some ((Demand.statement next?).andThen [.statements stop]) := by
    rw [Goal.demand, if_neg h]
  have hstatement : Goal.statement.demand next? = some (Demand.statement next?) := rfl
  exact demandOf_split hdemand hstatement hs

theorem demand_expression {next? : Option Kind} (h : next? ≠ some .letWord) :
    Goal.expression.demand next? = some ⟨Demand.leafKind next?, [.chain], none⟩ := by
  rw [Goal.demand]
  unfold Demand.expression
  split
  · contradiction
  · rfl

theorem consume_congr {gs hs : List Goal} {k : Kind}
    (h : demandOf gs (some k) = demandOf hs (some k)) : consume gs k = consume hs k := by
  rw [consume, consume, h]

theorem consume_token (k : Kind) (gs : List Goal) : consume (.token k :: gs) k = some gs := by
  simp [consume, demandOf, Goal.demand, Demand.andThen]

theorem consumeAll_append (gs : List Goal) (ks ls : List Kind) :
    consumeAll gs (ks ++ ls) = (consumeAll gs ks).bind fun left => consumeAll left ls := by
  induction ks generalizing gs with
  | nil => rfl
  | cons k ks ih =>
    simp only [List.cons_append, consumeAll]
    cases consume gs k with
    | none => rfl
    | some gs' => exact ih gs'

/-! ## Passing -/

namespace Passes

variable {gs hs is : List Goal} {ts us rest : List Token}

theorem refl (gs : List Goal) (rest : List Token) : Passes gs [] rest gs := ⟨gs, rfl, rfl⟩

theorem congr (h : demandOf gs (nextKind (ts ++ rest)) = demandOf hs (nextKind (ts ++ rest)))
    (hp : Passes hs ts rest is) : Passes gs ts rest is := by
  obtain ⟨left, hleft, hd⟩ := hp
  cases ts with
  | nil =>
    obtain rfl : hs = left := Option.some.inj hleft
    exact ⟨gs, rfl, h.trans hd⟩
  | cons t ts =>
    refine ⟨left, ?_, hd⟩
    simp only [List.map_cons, consumeAll] at hleft ⊢
    rwa [consume_congr h]

/-- Only the kinds of tokens decide whether they pass. -/
theorem of_kinds (h : us.map Token.kind = ts.map Token.kind) (hp : Passes gs ts rest hs) :
    Passes gs us rest hs := by
  rw [Passes, h]
  exact hp

/-- Of what comes after some tokens, only the first kind decides whether they pass. -/
theorem before {rest' : List Token} (h : nextKind rest' = nextKind rest)
    (hp : Passes gs ts rest hs) : Passes gs ts rest' hs := by
  rw [Passes, h]
  exact hp

/-- What an agenda asks for after some tokens is decided by their kinds. -/
theorem demand_eq {rest' : List Token} (h : Passes gs ts rest hs) (h' : Passes gs us rest' is)
    (hkinds : us.map Token.kind = ts.map Token.kind) (hnext : nextKind rest' = nextKind rest) :
    demandOf hs (nextKind rest) = demandOf is (nextKind rest) := by
  obtain ⟨now, hnow, hsame⟩ := h
  obtain ⟨now', hnow', hsame'⟩ := h'
  rw [hkinds] at hnow'
  obtain rfl : now = now' := Option.some.inj (hnow.symm.trans hnow')
  rw [← hsame, ← hnext, ← hsame']

theorem trans (h₁ : Passes gs ts (us ++ rest) hs) (h₂ : Passes hs us rest is) :
    Passes gs (ts ++ us) rest is := by
  obtain ⟨left, hleft, hd⟩ := h₁
  obtain ⟨left', hleft', hd'⟩ := congr hd h₂
  refine ⟨left', ?_, hd'⟩
  rw [List.map_append, consumeAll_append, hleft]
  exact hleft'

theorem token {t : Token} {k : Kind} (h : t.kind = k) (gs : List Goal) (rest : List Token) :
    Passes (.token k :: gs) [t] rest gs := by
  refine ⟨gs, ?_, rfl⟩
  simp [h, consumeAll, consume_token]

theorem cons {t : Token} {k : Kind} (h : t.kind = k) (hp : Passes gs ts rest hs) :
    Passes (.token k :: gs) (t :: ts) rest hs := by
  have hfirst : Passes (.token k :: gs) [t] (ts ++ rest) gs := token h gs (ts ++ rest)
  exact hfirst.trans hp

end Passes

namespace Stops

variable {gs hs : List Goal} {feed : Feed} {f g : Fault}

theorem of_passes {ts : List Token} (hp : Passes gs ts feed.tokens hs) (h : Stops hs feed f) :
    Stops gs ⟨ts ++ feed.tokens, feed.fault?⟩ f := by
  cases h with
  | lexical hf hpass =>
    exact .lexical hf (.trans (by simpa using hp) hpass)
  | token htokens hpass hd hk =>
    rw [htokens] at hp
    refine .token ?_ (hp.trans hpass) hd hk
    rw [htokens, List.append_assoc]
  | ending hf hpass hd =>
    exact .ending hf (.trans (by simpa using hp) hpass) hd

theorem congr (h : demandOf gs (nextKind feed.tokens) = demandOf hs (nextKind feed.tokens))
    (hstop : Stops hs feed f) : Stops gs feed f := by
  have hp : Passes gs [] feed.tokens hs := ⟨gs, rfl, h⟩
  exact of_passes hp hstop

/-- A fault at a token comes from an agenda that does not take the token. -/
theorem consumeAll_eq_none {left : List Goal} {read rest : List Token} {t : Token} {d : Demand}
    (hpass : Passes gs read (t :: rest) left) (hd : demandOf left (some t.kind) = some d)
    (hne : d.kind ≠ t.kind) (ks : List Kind) :
    consumeAll gs (read.map Token.kind ++ t.kind :: ks) = none := by
  obtain ⟨now, hnow, hsame⟩ := hpass
  have hnone : consume now t.kind = none := by
    rw [nextKind_cons, hd] at hsame
    rw [consume, hsame]
    exact if_neg hne
  rw [consumeAll_append, hnow, Option.bind_some, consumeAll, hnone]

/-- A token that is refused does not pass with what was read before it. -/
theorem not_passes {left : List Goal} {read rest : List Token} {t : Token} {d : Demand}
    (hpass : Passes gs read (t :: rest) left) (hd : demandOf left (some t.kind) = some d)
    (hne : d.kind ≠ t.kind) (ts us : List Token) : ¬ Passes gs (read ++ t :: ts) us hs := by
  rintro ⟨now, hnow, -⟩
  rw [List.map_append, List.map_cons, consumeAll_eq_none hpass hd hne] at hnow
  cases hnow

/-- Nothing passes that goes beyond a token that is refused. -/
theorem read_prefix {left : List Goal} {read rest ts us : List Token} {t : Token} {d : Demand}
    (hpass : Passes gs read (t :: rest) left) (hd : demandOf left (some t.kind) = some d)
    (hne : d.kind ≠ t.kind) (hpass' : Passes gs ts us hs) (h : read ++ t :: rest = ts ++ us) :
    ts <+: read := by
  rcases List.append_eq_append_iff.1 h with ⟨_ | ⟨u, vs⟩, rfl, hrest⟩ | ⟨vs, rfl, -⟩
  · simp
  · obtain ⟨rfl, -⟩ := List.cons.inj hrest
    exact absurd hpass' (not_passes hpass hd hne vs us)
  · exact List.prefix_append ts vs

/-- Tokens that pass to their end meet no fault. -/
theorem not_of_passes (hfault : feed.fault? = none) (hpass : Passes gs feed.tokens [] []) :
    ¬ Stops gs feed f := by
  intro h
  cases h with
  | lexical hf _ =>
    rw [hfault] at hf
    cases hf
  | @token read rest t _ _ htokens hpass' hd hne =>
    rw [htokens] at hpass
    exact not_passes hpass' hd hne rest [] hpass
  | ending _ hpass' hd =>
    have hnone := hpass.demand_eq hpass' rfl rfl
    rw [nextKind_nil, hd] at hnone
    cases hnone

/-- Tokens stop at one fault only. -/
theorem unique (hf : Stops gs feed f) (hg : Stops gs feed g) : f = g := by
  cases hf with
  | lexical hfault hpass =>
    cases hg with
    | lexical hfault' _ => rw [Option.some.inj (hfault.symm.trans hfault')]
    | @token read rest t _ _ htokens hpass' hd hne =>
      rw [htokens] at hpass
      exact absurd hpass (not_passes hpass' hd hne rest [])
    | ending hfault' _ _ => cases hfault.symm.trans hfault'
  | @token read rest t left d htokens hpass hd hne =>
    cases hg with
    | lexical _ hpass' =>
      rw [htokens] at hpass'
      exact absurd hpass' (not_passes hpass hd hne rest [])
    | @token read' rest' t' left' d' htokens' hpass' hd' hne' =>
      have happ := htokens.symm.trans htokens'
      have hread := read_prefix hpass hd hne hpass' happ
      have hread' := read_prefix hpass' hd' hne' hpass happ.symm
      obtain rfl : read = read' := hread'.eq_of_length_le hread.length_le
      obtain ⟨rfl, rfl⟩ := List.cons.inj (List.append_cancel_left happ)
      have hsame := hpass.demand_eq hpass' rfl rfl
      rw [nextKind_cons, hd, hd'] at hsame
      cases hsame
      rfl
    | ending _ hpass' _ =>
      rw [htokens] at hpass'
      exact absurd hpass' (not_passes hpass hd hne rest [])
  | ending hfault hpass hd =>
    cases hg with
    | lexical hfault' _ => cases hfault.symm.trans hfault'
    | @token read rest t _ _ htokens hpass' hd' hne' =>
      rw [htokens] at hpass
      exact absurd hpass (not_passes hpass' hd' hne' rest [])
    | ending _ hpass' hd' =>
      have hsame := hpass.demand_eq hpass' rfl rfl
      rw [nextKind_nil, hd, hd'] at hsame
      cases hsame
      rfl

end Stops

end Scriptlet
