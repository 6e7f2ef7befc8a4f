import Scriptlet.Proofs.Scan.Printing
import Scriptlet.Proofs.Syntax.Acceptance

/-!
# Scriptlet.Proofs.Syntax.Viable

Beginnings that can be completed:

* `Viable ks`      — some accepted source begins with tokens of the kinds `ks`.
* `completion gs`  — tokens that do all that an agenda asks for.
* `Fits gs`        — an agenda that its completion does not lead astray: a goal that is left with
                     nothing is not followed by a token that it would take.

A beginning is viable if and only if the agenda of a program takes it (`viable_iff`).
-/

namespace Scriptlet

def Viable (ks : List Kind) : Prop :=
  ∃ source p ts, parse source = .ok p ∧ tokenize source = .ok ts ∧ ks <+: ts.map Token.kind

/-- A token of a kind, without a text. -/
def Kind.blank (k : Kind) : Token := ⟨k, "", Position.start⟩

def Goal.filler : Goal → List Token
  | token k => [k.blank]
  | expression => [Kind.identifier.blank]
  | chain | statements _ | alternate => []
  | statement => [Kind.identifier.blank, Kind.semicolon.blank]
  | block | elseBody => [Kind.openBrace.blank, Kind.closeBrace.blank]
  | parameters => [Kind.openParen.blank, Kind.closeParen.blank]
  | parameter | afterParameter => [Kind.closeParen.blank]
  | branch =>
    [Kind.ifWord.blank, Kind.openParen.blank, Kind.identifier.blank, Kind.closeParen.blank,
      Kind.openBrace.blank, Kind.closeBrace.blank]

def completion (gs : List Goal) : List Token := gs.flatMap Goal.filler

/-- What the filler after a goal may begin with. -/
def Goal.Fits : Goal → Option Kind → Prop
  | expression, next? | chain, next? => next? ≠ some .operator
  | statement, next? | branch, next? | alternate, next? | elseBody, next? =>
    next? ≠ some .elseWord
  | statements stop, next? => next? = stop ∧ next? ≠ some .elseWord
  | _, _ => True

def Fits : List Goal → Prop
  | [] => True
  | g :: gs => g.Fits (nextKind (completion gs)) ∧ Fits gs

/-! ## Filling -/

theorem Goal.Fits.passes {g : Goal} {gs : List Goal} (h : g.Fits (nextKind (completion gs))) :
    Passes (g :: gs) g.filler (completion gs) gs := by
  cases g with
  | token k => exact Passes.token (t := k.blank) rfl gs _
  | expression =>
    refine Passes.demanded rfl rfl (Passes.absent ?_)
    exact if_neg h
  | chain => exact Passes.absent (if_neg h)
  | statement => exact ⟨gs, rfl, rfl⟩
  | statements stop => exact Passes.absent (if_pos (.inr h.1))
  | block => exact ⟨gs, rfl, rfl⟩
  | parameters => exact ⟨gs, rfl, rfl⟩
  | parameter => exact ⟨gs, rfl, rfl⟩
  | afterParameter => exact ⟨gs, rfl, rfl⟩
  | branch =>
    have hend : Goal.alternate.demand (nextKind (completion gs)) = none := if_neg h
    exact ⟨.alternate :: gs, rfl, demandOf_cons_none hend gs⟩
  | alternate => exact Passes.absent (if_neg h)
  | elseBody => exact ⟨gs, rfl, rfl⟩

theorem Fits.passes {gs : List Goal} (h : Fits gs) : Passes gs (completion gs) [] [] := by
  induction gs with
  | nil => exact .refl [] []
  | cons g gs ih =>
    have hg := h.1.passes
    rw [← List.append_nil (completion gs)] at hg
    exact hg.trans (ih h.2)

/-! ## Consuming -/

theorem Fits.expression {gs : List Goal} (hnext : nextKind (completion gs) ≠ some .operator)
    (h : Fits gs) (next? : Option Kind) : Fits ((Demand.expression next?).after ++ gs) := by
  unfold Demand.expression
  split
  · exact ⟨trivial, trivial, hnext, h⟩
  · exact ⟨hnext, h⟩

theorem Fits.block {gs : List Goal} (h : Fits gs) : Fits (Demand.block.after ++ gs) := by
  exact ⟨⟨rfl, nofun⟩, trivial, h⟩

theorem Fits.branch {gs : List Goal} (hnext : nextKind (completion gs) ≠ some .elseWord)
    (h : Fits gs) : Fits (Demand.branch.after ++ gs) :=
  ⟨trivial, nofun, trivial, trivial, hnext, h⟩

theorem Fits.statement {gs : List Goal} (hnext : nextKind (completion gs) ≠ some .elseWord)
    (h : Fits gs) (next? : Option Kind) : Fits ((Demand.statement next?).after ++ gs) := by
  unfold Demand.statement
  split
  · exact h.block
  · exact ⟨trivial, trivial, trivial, trivial, trivial, trivial, trivial, h⟩
  · exact h.branch hnext
  · exact ⟨trivial, trivial, trivial, h⟩
  · have hsemicolon : Fits (.token .semicolon :: gs) := ⟨trivial, h⟩
    rw [Demand.andThen, List.append_assoc]
    have hnext : nextKind (completion (.token .semicolon :: gs)) ≠ some .operator := by
      intro heq
      cases heq
    exact hsemicolon.expression hnext next?

/-- What is left of a goal after its first token fits as the goal did. -/
theorem Fits.demand {g : Goal} {gs : List Goal} (h : Fits (g :: gs)) {next? : Option Kind}
    {d : Demand} (hd : g.demand next? = some d) : Fits (d.after ++ gs) := by
  obtain ⟨hg, hgs⟩ := h
  cases g with
  | token k =>
    cases hd
    exact hgs
  | expression =>
    cases hd
    exact hgs.expression hg next?
  | chain =>
    rw [Goal.demand] at hd
    split at hd <;> cases hd
    exact ⟨hg, hgs⟩
  | statement =>
    cases hd
    exact hgs.statement hg next?
  | statements stop =>
    have hlist : Fits (.statements stop :: gs) := ⟨hg, hgs⟩
    rw [Goal.demand] at hd
    split at hd <;> cases hd
    rw [Demand.andThen, List.append_assoc]
    have hnext : nextKind (completion (.statements stop :: gs)) ≠ some .elseWord := hg.2
    exact hlist.statement hnext next?
  | block =>
    cases hd
    exact hgs.block
  | parameters =>
    cases hd
    exact ⟨trivial, hgs⟩
  | parameter =>
    rw [Goal.demand] at hd
    split at hd <;> cases hd
    · exact hgs
    · exact ⟨trivial, hgs⟩
  | afterParameter =>
    simp only [Goal.demand] at hd
    split at hd
    · cases hd
      exact hgs
    · split at hd <;> cases hd
      · exact hgs
      · exact ⟨trivial, hgs⟩
  | branch =>
    cases hd
    exact hgs.branch hg
  | alternate =>
    rw [Goal.demand] at hd
    split at hd <;> cases hd
    exact ⟨hg, hgs⟩
  | elseBody =>
    simp only [Goal.demand] at hd
    split at hd <;> cases hd
    · exact hgs.branch hg
    · exact hgs.block

theorem Fits.demandOf {gs : List Goal} (h : Fits gs) {next? : Option Kind} {d : Demand}
    (hd : demandOf gs next? = some d) : Fits d.after := by
  induction gs with
  | nil => cases hd
  | cons g gs ih =>
    cases hg : g.demand next? with
    | some d' =>
      rw [demandOf_cons_some hg] at hd
      cases hd
      exact h.demand hg
    | none =>
      rw [demandOf_cons_none hg] at hd
      exact ih h.2 hd

theorem Fits.consume {gs hs : List Goal} {k : Kind} (h : Fits gs) (hc : consume gs k = some hs) :
    Fits hs := by
  rw [Scriptlet.consume] at hc
  split at hc
  · rename_i d hd
    split at hc <;> cases hc
    exact h.demandOf hd
  · cases hc

theorem Fits.consumeAll {ks : List Kind} :
    ∀ {gs hs : List Goal}, Fits gs → consumeAll gs ks = some hs → Fits hs := by
  induction ks with
  | nil =>
    intro gs hs h hc
    cases hc
    exact h
  | cons k ks ih =>
    intro gs hs h hc
    rw [Scriptlet.consumeAll] at hc
    split at hc
    · rename_i gs' hgs'
      exact ih (h.consume hgs') hc
    · cases hc

/-! ## Viable beginnings -/

/-- Whatever an agenda of a program has taken can be completed. -/
theorem exists_completion {ks : List Kind} {left : List Goal}
    (h : consumeAll programGoals ks = some left) :
    ∃ ls last, consumeAll programGoals (ks ++ ls) = some last ∧ demandOf last none = none := by
  have hfits : Fits programGoals := ⟨nofun, ⟨rfl, nofun⟩, trivial⟩
  obtain ⟨last, hlast, hnone⟩ := (hfits.consumeAll h).passes
  refine ⟨(completion left).map Token.kind, last, ?_, hnone⟩
  rw [consumeAll_append, h]
  exact hlast

theorem viable_iff {ks : List Kind} :
    Viable ks ↔ (consumeAll programGoals ks).isSome = true := by
  constructor
  · rintro ⟨source, p, ts, hparse, htokens, ls, hls⟩
    rcases parse_outcome source with ⟨us, q, hus, hq, -⟩ | ⟨f, -, hf⟩
    · rw [tokenize_eq_ok_iff.1 htokens] at hus
      cases hus
      obtain ⟨left, hleft, -⟩ := hq.passes
      rw [← hls, consumeAll_append] at hleft
      obtain ⟨mid, hmid, -⟩ := Option.bind_eq_some_iff.1 hleft
      rw [hmid]
      rfl
    · rw [hparse] at hf
      cases hf
  · intro h
    obtain ⟨left, hleft⟩ := Option.isSome_iff_exists.1 h
    obtain ⟨ls, last, hlast, hnone⟩ := exists_completion hleft
    obtain ⟨source, ts, htokens, hts⟩ := exists_source_of_kinds (ks ++ ls)
    have hpass : Passes programGoals ts [] [] := ⟨last, by rwa [hts], hnone⟩
    obtain ⟨p, -, hparse⟩ := parse_of_passes (tokenize_eq_ok_iff.1 htokens) hpass
    exact ⟨source, p, ts, hparse, htokens, _, hts.symm⟩

end Scriptlet
