import Scriptlet.Parser.Statement
import Scriptlet.Proofs.Scan.Lexeme
import Scriptlet.Proofs.Syntax.Agenda

/-!
# Scriptlet.Proofs.Syntax.Reading

What a part of the parser does, in terms of tokens:

* `State.feed`      — the tokens before a state: its next token, and then those of its scanner.
* `State.Ready`     — a state as the parser meets it: without a next token at the end of the text
                      only, and with a next token of which the text suits the kind.
* `Meets gs feed post x`  — the part `x`, begun before `feed`, either reads tokens that the goals
                      `gs` demand, and `post` says what it made of them, or it fails at the first
                      token, or end, that the goals do not allow.

`eat_meets` is the statement for one token. The other parts are put together by `Meets.seq`,
`Meets.map` and `Meets.congr`; none of them looks into a scanner again.
-/

namespace Scriptlet

namespace State

def feed (s : State) : Feed :=
  ⟨s.lookahead.toList ++ s.scanner.feed.tokens, s.scanner.feed.fault?⟩

structure Ready (s : State) : Prop where
  finished : s.lookahead = none → s.scanner.feed = ⟨[], none⟩
  lexeme : ∀ t ∈ s.lookahead, t.kind.Lexeme t.lexeme.toList

theorem Ready.kind?_eq {s : State} (h : s.Ready) : s.kind? = nextKind s.feed.tokens := by
  cases hl : s.lookahead with
  | none => simp [kind?, feed, hl, h.finished hl]
  | some t => simp [kind?, feed, hl]

theorem Ready.check_iff {s : State} (h : s.Ready) {k : Kind} :
    s.check k = true ↔ nextKind s.feed.tokens = some k := by
  rw [check, beq_iff_eq, h.kind?_eq]

theorem Ready.ne_of_not_check {s : State} (h : s.Ready) {k : Kind} (hk : ¬ s.check k = true) :
    nextKind s.feed.tokens ≠ some k := by
  intro heq
  exact hk (h.check_iff.2 heq)

theorem Ready.atEnd_iff {s : State} (h : s.Ready) :
    s.atEnd = true ↔ nextKind s.feed.tokens = none := by
  rw [← h.kind?_eq]
  cases hl : s.lookahead <;> simp [atEnd, kind?, hl]

theorem Ready.feed_of_none {s : State} (h : s.Ready) (hl : s.lookahead = none) :
    s.feed = ⟨[], none⟩ := by
  simp [feed, hl, h.finished hl]

/-- The state after a token was taken and the scanner was asked for the next one. -/
theorem ready_token {s scanner : Scanner} {t : Token} (h : s.nextToken = (.token t, scanner)) :
    (State.mk scanner (some t)).Ready ∧ (State.mk scanner (some t)).feed = s.feed := by
  have hfeed := Scanner.feed_token h
  constructor
  · constructor
    · intro hn
      cases hn
    · intro u hu
      cases hu
      have hmem : t ∈ s.feed.tokens := by
        rw [hfeed]
        exact List.mem_cons_self
      exact lexeme_of_mem_feed hmem
  · rw [hfeed]
    rfl

theorem ready_finish {s scanner : Scanner} (h : s.nextToken = (.finish, scanner)) :
    (State.mk scanner none).Ready ∧ (State.mk scanner none).feed = s.feed := by
  have hagain := Scanner.feed_finish (Scanner.nextToken_finish_again h)
  constructor
  · constructor
    · intro _
      exact hagain
    · intro t ht
      cases ht
  · rw [Scanner.feed_finish h, feed, hagain]
    rfl

/-- The state before the first token has the tokens of the text. -/
theorem ready_prime {source : List Char} {s : State} (h : prime source = .ok s) :
    s.Ready ∧ s.feed = (Scanner.start source).feed := by
  unfold prime at h
  split at h
  · rename_i hn
    cases h
    exact ready_token hn
  · rename_i hn
    cases h
    exact ready_finish hn
  · cases h

theorem feed_of_prime_error {source : List Char} {f : ScanFault} (h : prime source = .error f) :
    (Scanner.start source).feed = ⟨[], some f⟩ := by
  unfold prime at h
  split at h
  · cases h
  · cases h
  · rename_i hn
    cases h
    exact Scanner.feed_fault hn

end State

def Meets {s : State} {α : Type} (gs : List Goal) (feed : Feed)
    (post : List Token → Option Kind → α → Prop) : Step s α → Prop
  | .done v next _ => next.Ready ∧ ∃ read, feed = ⟨read ++ next.feed.tokens, next.feed.fault?⟩ ∧
      post read (nextKind next.feed.tokens) v ∧
      ∀ hs, Passes (gs ++ hs) read next.feed.tokens hs
  | .failed f _ => ∀ hs, Stops (gs ++ hs) feed f

namespace Meets

variable {s s₀ : State} {α β : Type} {gs gs' : List Goal} {g : Goal} {feed : Feed}
  {post : List Token → Option Kind → α → Prop} {post' : List Token → Option Kind → β → Prop}
  {x : Step s α}

theorem weaken {h : s.remaining ≤ s₀.remaining} (hx : Meets gs feed post x) :
    Meets gs feed post (x.weaken h) := by
  cases x with
  | done v next h => exact hx
  | failed f stop => exact hx

theorem map {f : α → β} (hx : Meets gs feed (fun read next? v => post' read next? (f v)) x) :
    Meets gs feed post' (x.map f) := by
  cases x with
  | done v next h => exact hx
  | failed f stop => exact hx

theorem imp {x : Step s β} {post post' : List Token → Option Kind → β → Prop}
    (hpost : ∀ read next? v, post read next? v → post' read next? v) (hx : Meets gs feed post x) :
    Meets gs feed post' x := by
  cases x with
  | done v next h =>
    obtain ⟨hready, read, hfeed, hp, hpass⟩ := hx
    exact ⟨hready, read, hfeed, hpost _ _ _ hp, hpass⟩
  | failed f stop => exact hx

/-- Goals may be replaced by others that ask for the same. -/
theorem congr (h : ∀ hs, demandOf (gs ++ hs) (nextKind feed.tokens) =
    demandOf (gs' ++ hs) (nextKind feed.tokens)) (hx : Meets gs' feed post x) :
    Meets gs feed post x := by
  cases x with
  | done v next hlt =>
    obtain ⟨hready, read, rfl, hp, hpass⟩ := hx
    exact ⟨hready, read, rfl, hp, fun hs => .congr (h hs) (hpass hs)⟩
  | failed f stop => exact fun hs => .congr (h hs) (hx hs)

/-- A goal may be replaced by its token and the goals after it. -/
theorem demanded {k : Kind} (h : g.demand (nextKind feed.tokens) = some ⟨k, gs, none⟩)
    (hx : Meets (.token k :: gs) feed post x) : Meets [g] feed post x :=
  congr (fun hs => demandOf_unfold h hs) hx

theorem taken {k : Kind} (hk : nextKind feed.tokens = some k)
    (h : g.demand (some k) = some ⟨k, gs, none⟩) (hx : Meets (.token k :: gs) feed post x) :
    Meets [g] feed post x := by
  refine demanded ?_ hx
  rw [hk]
  exact h

theorem same {g' : Goal} (h : g.demand (nextKind feed.tokens) = g'.demand (nextKind feed.tokens))
    (hx : Meets [g'] feed post x) : Meets [g] feed post x := by
  refine congr ?_ hx
  intro hs
  rw [List.singleton_append, List.singleton_append, demandOf, demandOf, h]

/-- For a goal for which nothing has to come, nothing is read. -/
theorem absent {next : State} {v : α} {h : next.remaining < s.remaining} (hready : next.Ready)
    (hd : g.demand (nextKind next.feed.tokens) = none)
    (hp : post [] (nextKind next.feed.tokens) v) :
    Meets [g] next.feed post (Step.done v next h) := by
  refine ⟨hready, [], rfl, hp, ?_⟩
  intro hs
  exact ⟨g :: hs, rfl, demandOf_cons_none hd hs⟩

/-- After a part that read `read`, the rest has the tokens after it. -/
theorem after {y : Step s₀ β} {read : List Token} {next : State}
    (hpass : ∀ hs, Passes (g :: hs) read next.feed.tokens hs)
    (hy : Meets gs next.feed (fun ts => post' (read ++ ts)) y) :
    Meets (g :: gs) ⟨read ++ next.feed.tokens, next.feed.fault?⟩ post' y := by
  cases y with
  | done w last hlt =>
    obtain ⟨hready, ts, hfeed, hp, hpass'⟩ := hy
    refine ⟨hready, read ++ ts, by rw [hfeed, List.append_assoc], hp, fun hs => ?_⟩
    have hfirst := hpass (gs ++ hs)
    rw [hfeed] at hfirst
    exact hfirst.trans (hpass' hs)
  | failed f stop =>
    intro hs
    exact .of_passes (hpass (gs ++ hs)) (hy hs)

/-- A part `y` that begins with the part `x`, and fails as `x` does. -/
theorem follow {y : Step s₀ β} (hx : Meets [g] feed post x)
    (hfailed : ∀ f stop, x = .failed f stop → y = .failed f stop)
    (hdone : ∀ v next h read, x = .done v next h → next.Ready →
      post read (nextKind next.feed.tokens) v →
      Meets gs next.feed (fun ts => post' (read ++ ts)) y) :
    Meets (g :: gs) feed post' y := by
  cases x with
  | done v next h =>
    obtain ⟨hready, read, rfl, hp, hpass⟩ := hx
    exact after hpass (hdone v next h read rfl hready hp)
  | failed f stop =>
    rw [hfailed f stop rfl]
    intro hs
    exact hx (gs ++ hs)

theorem seq {f : (v : α) → (next : State) → next.remaining < s.remaining → Step next β}
    (hx : Meets [g] feed post x)
    (hf : ∀ v next h read, next.Ready → post read (nextKind next.feed.tokens) v →
      Meets gs next.feed (fun ts => post' (read ++ ts)) (f v next h)) :
    Meets (g :: gs) feed post' (x.andThen f) := by
  refine follow hx ?_ ?_
  · rintro e stop rfl
    rfl
  · rintro v next h read rfl hready hp
    have hy := hf v next h read hready hp
    simp only [Step.andThen]
    cases hval : f v next h with
    | done w last hlt => rwa [hval] at hy
    | failed e stop => rwa [hval] at hy

end Meets

namespace State

variable {s : State}

/-! ## One token -/

theorem eat_meets (h : s.Ready) (k : Kind) :
    Meets [.token k] s.feed
      (fun read _ t => read = [t] ∧ t.kind = k ∧ t.kind.Lexeme t.lexeme.toList) (s.eat k) := by
  have hdemand : ∀ hs next?, demandOf (.token k :: hs) next? = some ⟨k, hs, none⟩ := by
    intro hs next?
    rfl
  unfold eat
  split
  · rename_i hl
    intro hs
    rw [h.feed_of_none hl]
    exact .ending rfl (Passes.refl _ _) (hdemand hs none)
  · rename_i t hl
    have hfeed : s.feed = ⟨t :: s.scanner.feed.tokens, s.scanner.feed.fault?⟩ := by
      simp [feed, hl]
    rw [hfeed]
    split
    · rename_i hk
      have hlexeme := h.lexeme t hl
      split
      · rename_i u scanner hn
        obtain ⟨hready, hnext⟩ := ready_token hn
        refine ⟨hready, [t], by rw [hnext]; rfl, ⟨rfl, hk, hlexeme⟩, ?_⟩
        intro hs
        exact Passes.token hk hs _
      · rename_i scanner hn
        obtain ⟨hready, hnext⟩ := ready_finish hn
        refine ⟨hready, [t], by rw [hnext]; rfl, ⟨rfl, hk, hlexeme⟩, ?_⟩
        intro hs
        exact Passes.token hk hs _
      · rename_i f scanner hn
        intro hs
        rw [Scanner.feed_fault hn]
        exact .lexical rfl (Passes.token hk hs [])
    · rename_i hk
      intro hs
      have hne : k ≠ t.kind := fun heq => hk heq.symm
      have hnone : ∀ rest, Passes (.token k :: hs) [] (t :: rest) (.token k :: hs) :=
        fun rest => Passes.refl _ _
      exact .token (d := ⟨k, hs, none⟩) rfl (hnone _) (hdemand hs _) hne

theorem name_meets (h : s.Ready) :
    Meets [.token .identifier] s.feed
      (fun read _ n => ∃ t, read = [t] ∧ t.kind = .identifier ∧ t.lexeme = n) s.name := by
  refine Meets.map (Meets.imp ?_ (eat_meets h .identifier))
  intro read next? t hread
  obtain ⟨rfl, hk, -⟩ := hread
  exact ⟨t, rfl, hk, rfl⟩

/-- A text that always has a meaning gives no fault of its own. -/
theorem meaning_meets {α : Type} {gs : List Goal} {feed : Feed}
    {post : List Token → Option Kind → Token → Prop} {x : Step s Token} {k : Kind}
    {f : String → Option α} (hx : Meets gs feed post x)
    (hf : ∀ read next? t, post read next? t → ∃ v, f t.lexeme = some v) :
    Meets gs feed (fun read next? v => ∃ t, post read next? t ∧ f t.lexeme = some v)
      (meaning k f x) := by
  cases x with
  | done t next h =>
    obtain ⟨hready, read, hfeed, hp, hpass⟩ := hx
    obtain ⟨v, hv⟩ := hf _ _ _ hp
    simp only [meaning, hv]
    exact ⟨hready, read, hfeed, ⟨t, hp, hv⟩, hpass⟩
  | failed f stop => exact hx

theorem number_meets (h : s.Ready) :
    Meets [.token .number] s.feed (fun read _ e => ∃ t, read = [t] ∧ Leaf t e) s.number := by
  refine Meets.imp ?_ (meaning_meets (eat_meets h .number) ?_)
  · intro read next? e hread
    obtain ⟨t, ⟨rfl, hk, -⟩, he⟩ := hread
    obtain ⟨x, hx, rfl⟩ := Option.map_eq_some_iff.1 he
    exact ⟨t, rfl, .number hk hx⟩
  · intro read next? t hread
    obtain ⟨-, hk, hlexeme⟩ := hread
    rw [hk] at hlexeme
    obtain ⟨x, hx⟩ := read_of_lexeme hlexeme
    exact ⟨.number x, by rw [hx]; rfl⟩

theorem string_meets (h : s.Ready) :
    Meets [.token .string] s.feed (fun read _ e => ∃ t, read = [t] ∧ Leaf t e) s.string := by
  refine Meets.map (Meets.imp ?_ (eat_meets h .string))
  intro read next? t hread
  obtain ⟨rfl, hk, hlexeme⟩ := hread
  rw [hk] at hlexeme
  obtain ⟨inner, hinner⟩ := unquote?_of_lexeme hlexeme
  rw [hinner]
  exact ⟨t, rfl, .string hk hinner⟩

theorem boolean_meets (h : s.Ready) :
    Meets [.token .boolean] s.feed (fun read _ e => ∃ t, read = [t] ∧ Leaf t e) s.boolean := by
  refine Meets.map (Meets.imp ?_ (eat_meets h .boolean))
  intro read next? t hread
  obtain ⟨rfl, hk, hlexeme⟩ := hread
  rw [hk] at hlexeme
  rcases boolean_of_lexeme hlexeme with hl | hl
  · rw [hl]
    exact ⟨t, rfl, .boolean hk hl⟩
  · rw [hl]
    exact ⟨t, rfl, .boolean hk hl⟩

theorem literal_meets (h : s.Ready) :
    Meets [.token (Demand.leafKind (nextKind s.feed.tokens))] s.feed
      (fun read _ e => ∃ t, read = [t] ∧ Leaf t e) s.literal := by
  have hname : Meets [.token .identifier] s.feed (fun read _ e => ∃ t, read = [t] ∧ Leaf t e)
      (s.name.map .identifier) := by
    refine Meets.map (Meets.imp ?_ (name_meets h))
    intro read next? n hread
    obtain ⟨t, rfl, hk, rfl⟩ := hread
    exact ⟨t, rfl, .identifier hk⟩
  rw [literal, h.kind?_eq]
  generalize nextKind s.feed.tokens = next?
  cases next? with
  | none => exact hname
  | some k =>
    cases k with
    | number => exact number_meets h
    | string => exact string_meets h
    | boolean => exact boolean_meets h
    | _ => exact hname

theorem operator_meets (h : s.Ready) :
    Meets [.token .operator] s.feed
      (fun read _ o => ∃ t p, read = [t] ∧ t.kind = .operator ∧
        Operation.ofSymbol? t.lexeme = some p ∧ o = ⟨p, t.lexeme⟩) s.operator := by
  refine Meets.imp ?_ (meaning_meets (eat_meets h .operator) ?_)
  · intro read next? o hread
    obtain ⟨t, ⟨rfl, hk, -⟩, ho⟩ := hread
    obtain ⟨p, hp, rfl⟩ := Option.map_eq_some_iff.1 ho
    exact ⟨t, p, rfl, hk, hp, rfl⟩
  · intro read next? t hread
    obtain ⟨-, hk, hlexeme⟩ := hread
    rw [hk] at hlexeme
    obtain ⟨p, hp⟩ := ofSymbol?_of_lexeme hlexeme
    exact ⟨⟨p, t.lexeme⟩, by rw [hp]; rfl⟩

end State

end Scriptlet
