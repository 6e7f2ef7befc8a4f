import Scriptlet.Number.Nearest
import Scriptlet.Proofs.Scan.Pieces
import Scriptlet.Tree.Operator

/-!
# Scriptlet.Proofs.Scan.Lexeme

The texts of tokens:

* `Kind.spellings`  — all texts of the tokens of a kind, where there are finitely many.
* `Kind.Lexeme`     — the texts that a token of a kind may have.

`lexeme_of_mem_feed` says that the tokens of every scanner have such texts. The last section says
what these texts mean to the parser: a number has a value, a string an inside, an operator an
operation.
-/

namespace Scriptlet

namespace Kind

def spellings : Kind → List String
  | boolean => ["true", "false"]
  | operator => ["&&", "||", "==", "!="]
  | k => k.spelling?.toList

def Lexeme : Kind → List Char → Prop
  | number, w => w ≠ [] ∧ ∀ c ∈ w, isDigit c = true
  | string, w => ∃ (q : Quote) (inner : List Char),
      q.character ∉ inner ∧ w = q.character :: inner ++ [q.character]
  | identifier, w => ∃ c cs, w = c :: cs ∧ startsName c = true ∧ ∀ d ∈ cs, continuesName d = true
  | k, w => ∃ v ∈ k.spellings, w = v.toList

/-- Whether the tokens of a kind have finitely many texts. -/
def spelled : Kind → Bool
  | number | string | identifier => false
  | _ => true

theorem lexeme_iff_of_spelled {k : Kind} (h : k.spelled = true) {w : List Char} :
    k.Lexeme w ↔ ∃ v ∈ k.spellings, w = v.toList := by
  cases k <;> simp_all [spelled, Lexeme]

end Kind

/-! ## What the rules take -/

theorem cutQuoted_eq_some {cs w rest : List Char} (h : cutQuoted cs = some (w, rest)) :
    ∃ (q : Quote) (inner : List Char),
      q.character ∉ inner ∧ w = q.character :: inner ++ [q.character] := by
  unfold cutQuoted at h
  split at h
  · cases h
  · rename_i c tail
    split at h
    · rename_i q d after hq hd
      cases h
      have hdc : d = c := by
        have hmem : d ∈ (tail.dropWhile (· ≠ c)).head? := by rw [hd]; rfl
        simpa using head?_dropWhile_eq_false hmem
      obtain rfl := Quote.ofCharacter?_eq_some_iff.1 hq
      refine ⟨q, tail.takeWhile (· ≠ q.character), fun hm => ?_, by rw [hdc]⟩
      simpa using mem_takeWhile_eq_true hm
    · cases h

theorem cutName_eq_some {cs w rest : List Char} (h : cutName cs = some (w, rest)) :
    ∃ c ds, w = c :: ds ∧ startsName c = true ∧ ∀ d ∈ ds, continuesName d = true := by
  unfold cutName at h
  split at h
  · cases h
  · rename_i c tail
    split at h
    · rename_i hc
      cases h
      exact ⟨c, _, rfl, hc, fun d hd => mem_takeWhile_eq_true hd⟩
    · cases h

/-- The pattern of a rule is one for the kind of token that it emits. -/
def Pattern.suits : Pattern → Kind → Bool
  | .digits, k => k = .number
  | .quoted, k => k = .string
  | .name, k => k = .identifier
  | .spelled ws, k | .reserved ws, k => k.spelled && ws = k.spellings
  | .blanks, _ | .lineComment, _ | .blockComment, _ => false

/-- What a rule emits is of the kind that its pattern is one for. -/
def Rule.suited (r : Rule) : Bool :=
  match r.action with
  | .skip => true
  | .emit k => r.pattern.suits k

theorem suits_of_mem_rules {r : Rule} (hr : r ∈ rules) {k : Kind} (hk : r.action = .emit k) :
    r.pattern.suits k = true := by
  have hall : rules.all Rule.suited = true := by decide
  have hsuited := List.all_eq_true.1 hall r hr
  rw [Rule.suited, hk] at hsuited
  exact hsuited

theorem lexeme_of_suits {p : Pattern} {k : Kind} (hp : p.suits k = true) {cs w rest : List Char}
    (h : p.split? cs = some (w, rest)) : k.Lexeme w := by
  have spelling : ∀ {ws : List String}, (k.spelled && decide (ws = k.spellings)) = true →
      (∃ v ∈ ws, w = v.toList) → k.Lexeme w := by
    intro ws hws hv
    simp only [Bool.and_eq_true, decide_eq_true_eq] at hws
    obtain ⟨hk, rfl⟩ := hws
    exact (Kind.lexeme_iff_of_spelled hk).2 hv
  cases p with
  | blanks => cases hp
  | lineComment => cases hp
  | blockComment => cases hp
  | spelled ws => exact spelling hp (cutSpelling_append h).2
  | reserved ws => exact spelling hp (cutSpelling_append (cutReserved_eq_some h).1).2
  | digits =>
    obtain rfl : k = .number := by simpa [Pattern.suits] using hp
    obtain ⟨hne, hw, -⟩ := cutRun_eq_some h
    exact ⟨hne, hw⟩
  | quoted =>
    obtain rfl : k = .string := by simpa [Pattern.suits] using hp
    exact cutQuoted_eq_some h
  | name =>
    obtain rfl : k = .identifier := by simpa [Pattern.suits] using hp
    exact cutName_eq_some h

theorem lexeme_of_firstMatch {cs : List Char} {m : Match} {k : Kind}
    (h : firstMatch cs = some m) (hk : m.action = .emit k) : k.Lexeme m.piece := by
  obtain ⟨r, hr, hm⟩ := mem_of_firstMatch h
  obtain ⟨⟨piece, rest⟩, hs, rfl⟩ := Option.map_eq_some_iff.1 hm
  exact lexeme_of_suits (suits_of_mem_rules hr hk) hs

theorem Cuts.lexeme {p : Position} {cs left : List Char} {ps : List Piece}
    (h : Cuts p cs ps left) : ∀ t, Piece.read t ∈ ps → t.kind.Lexeme t.lexeme.toList := by
  intro t ht
  obtain ⟨before, after, hps⟩ := List.append_of_mem ht
  exact lexeme_of_firstMatch (h.read hps).1 rfl

/-- Every token that a scanner gives has a text of its kind. -/
theorem lexeme_of_mem_feed {s : Scanner} {t : Token} (h : t ∈ s.feed.tokens) :
    t.kind.Lexeme t.lexeme.toList := by
  obtain ⟨source, cs, p⟩ := s
  obtain ⟨ps, left, hcuts⟩ := Cuts.exists_cuts p cs
  rw [hcuts.feed_eq source] at h
  exact hcuts.lexeme t (read_mem_of_mem h)

/-! ## What these texts mean -/

theorem read_of_lexeme {w : List Char} (h : Kind.number.Lexeme w) :
    ∃ x, Binary64.read w = some x :=
  ⟨_, Binary64.read_digits h.1 h.2⟩

theorem unquote?_of_lexeme {w : List Char} (h : Kind.string.Lexeme w) :
    ∃ inner, Quote.unquote? w = some inner := by
  obtain ⟨q, inner, -, rfl⟩ := h
  exact ⟨inner, Quote.unquote?_eq_some_iff.2 ⟨q, rfl⟩⟩

theorem boolean_of_lexeme {l : String} (h : Kind.boolean.Lexeme l.toList) :
    l = "true" ∨ l = "false" := by
  obtain ⟨v, hv, hl⟩ := h
  obtain rfl : l = v := String.toList_inj.1 hl
  simpa [Kind.spellings] using hv

theorem ofSymbol?_of_lexeme {l : String} (h : Kind.operator.Lexeme l.toList) :
    ∃ o, Operation.ofSymbol? l = some o := by
  obtain ⟨v, hv, hl⟩ := h
  obtain rfl : l = v := String.toList_inj.1 hl
  have hall : ∀ v ∈ Kind.operator.spellings, (Operation.ofSymbol? v).isSome = true := by decide
  exact Option.isSome_iff_exists.1 (hall l hv)

end Scriptlet
