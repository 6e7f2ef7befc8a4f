import Scriptlet.Proofs.Scan.Trivia

/-!
# Scriptlet.Proofs.Scan.Pieces

The scanner as a way to cut a text:

* `Piece`              — text that was passed over, or a token with its text.
* `Cuts p cs ps left`  — scanning `cs` from place `p` on cuts it into the pieces `ps` and stops
                         before `left`.

Every text has a cut (`Cuts.exists_cuts`), and each lemma about `Cuts` is an induction on it: the
pieces make up the text, they are as long as they can be, and the feed of the scanner lists the
tokens among them. `scan_lossless` puts this together for a whole source.
-/

namespace Scriptlet

inductive Piece where
  | skipped (text : List Char)
  | read (token : Token)
  deriving DecidableEq, Repr

namespace Piece

def text : Piece → List Char
  | skipped w => w
  | read t => t.lexeme.toList

def token? : Piece → Option Token
  | skipped _ => none
  | read t => some t

end Piece

/-- The text of some pieces, one after the other. -/
def textOf (ps : List Piece) : List Char := ps.flatMap Piece.text

@[simp] theorem textOf_nil : textOf [] = [] := rfl

@[simp] theorem textOf_cons (x : Piece) (ps : List Piece) :
    textOf (x :: ps) = x.text ++ textOf ps := rfl

inductive Cuts : Position → List Char → List Piece → List Char → Prop where
  | stop {p : Position} {cs : List Char} : firstMatch cs = none → Cuts p cs [] cs
  | skip {p : Position} {cs w rest left : List Char} {ps : List Piece} :
      firstMatch cs = some ⟨w, rest, .skip⟩ → Cuts (p.advance w) rest ps left →
      Cuts p cs (.skipped w :: ps) left
  | emit {p : Position} {cs w rest left : List Char} {ps : List Piece} {kind : Kind} :
      firstMatch cs = some ⟨w, rest, .emit kind⟩ → Cuts (p.advance w) rest ps left →
      Cuts p cs (.read ⟨kind, String.ofList w, p⟩ :: ps) left

namespace Cuts

variable {p : Position} {cs left : List Char} {ps : List Piece}

theorem exists_cuts (p : Position) (cs : List Char) : ∃ ps left, Cuts p cs ps left := by
  induction hn : cs.length using Nat.strongRecOn generalizing p cs with
  | ind n ih =>
    cases hm : firstMatch cs with
    | none => exact ⟨[], cs, .stop hm⟩
    | some m =>
      obtain ⟨w, rest, action⟩ := m
      have hlt : rest.length < n := hn ▸ rest_length_lt hm
      obtain ⟨ps, left, h⟩ := ih rest.length hlt (p.advance w) rest rfl
      cases action with
      | skip => exact ⟨_, _, .skip hm h⟩
      | emit kind => exact ⟨_, _, .emit hm h⟩

theorem whole (h : Cuts p cs ps left) : cs = textOf ps ++ left := by
  induction h with
  | stop _ => rfl
  | skip hm _ ih =>
    rw [textOf_cons, List.append_assoc, ← ih]
    exact (firstMatch_append hm).1.symm
  | emit hm _ ih =>
    rw [textOf_cons, List.append_assoc, ← ih]
    simpa [Piece.text] using (firstMatch_append hm).1.symm

theorem firstMatch_left (h : Cuts p cs ps left) : firstMatch left = none := by
  induction h with
  | stop hm => exact hm
  | skip _ _ ih => exact ih
  | emit _ _ ih => exact ih

theorem text_ne_nil (h : Cuts p cs ps left) : ∀ x ∈ ps, x.text ≠ [] := by
  induction h with
  | stop _ => simp
  | skip hm _ ih =>
    rintro x (_ | ⟨_, hx⟩)
    · exact (firstMatch_append hm).2
    · exact ih x hx
  | emit hm _ ih =>
    rintro x (_ | ⟨_, hx⟩)
    · simpa [Piece.text] using (firstMatch_append hm).2
    · exact ih x hx

/-- A cut is a cut from each of its pieces on. -/
theorem split (h : Cuts p cs ps left) {before after : List Piece} {x : Piece}
    (hps : ps = before ++ x :: after) :
    Cuts (p.advance (textOf before)) (x.text ++ (textOf after ++ left)) (x :: after) left := by
  induction before generalizing p cs ps with
  | nil =>
    subst hps
    have hwhole := h.whole
    rw [List.nil_append, textOf_cons, List.append_assoc] at hwhole
    rw [← hwhole]
    exact h
  | cons b before ih =>
    subst hps
    rw [textOf_cons, Position.advance_append]
    cases h with
    | skip hm hrest => exact ih hrest rfl
    | emit hm hrest =>
      have htail := ih hrest rfl
      simpa [Piece.text] using htail

/-- What was passed over is delimited by the text after it. -/
theorem skipped (h : Cuts p cs ps left) {before after : List Piece} {w : List Char}
    (hps : ps = before ++ .skipped w :: after) : Skipped w (textOf after ++ left) := by
  cases h.split hps with
  | skip hm hrest =>
    rw [← hrest.whole]
    exact skipped_of_firstMatch hm rfl

/-- A token stands where the text before it ends. -/
theorem position_eq (h : Cuts p cs ps left) {before after : List Piece} {t : Token}
    (hps : ps = before ++ .read t :: after) : t.position = p.advance (textOf before) := by
  cases h.split hps with
  | emit hm hrest => rfl

/-- A token was matched, and the text after it was cut. -/
theorem read (h : Cuts p cs ps left) {before after : List Piece} {t : Token}
    (hps : ps = before ++ .read t :: after) :
    firstMatch (t.lexeme.toList ++ (textOf after ++ left)) =
        some ⟨t.lexeme.toList, textOf after ++ left, .emit t.kind⟩ ∧
      ∃ q, Cuts q (textOf after ++ left) after left := by
  cases h.split hps with
  | @emit _ _ w rest _ _ kind hm hrest =>
    obtain rfl : rest = textOf after ++ left := hrest.whole
    exact ⟨by simpa [Piece.text] using hm, _, hrest⟩

/-- The scanner gives the tokens of the cut, and at its end a fault if text is left. -/
theorem feed_eq (h : Cuts p cs ps left) (source : List Char) :
    (Scanner.mk source cs p).feed =
      ⟨ps.filterMap Piece.token?, left.head?.map fun c => ⟨c, p.advance (textOf ps)⟩⟩ := by
  induction h with
  | @stop p cs hm =>
    cases cs with
    | nil => exact Scanner.feed_finish (Scanner.nextToken_finish rfl)
    | cons c cs => exact Scanner.feed_fault (Scanner.nextToken_fault rfl hm)
  | @skip p cs w rest left ps hm _ ih =>
    rw [Scanner.feed_eq_of_nextToken_eq (nextToken_of_skip hm), ih, textOf_cons,
      Position.advance_append]
    rfl
  | @emit p cs w rest left ps kind hm _ ih =>
    have hnext := Scanner.nextToken_emit (s := ⟨source, cs, p⟩) hm rfl
    rw [Scanner.feed_token hnext, Scanner.pass, ih, textOf_cons, Position.advance_append]
    simp [Piece.text, Piece.token?]

/-- A cut that leaves nothing goes on with a match as long as there is text. -/
theorem goes_on (h : Cuts p cs ps []) (hne : cs ≠ []) : firstMatch cs ≠ none := by
  generalize hleft : ([] : List Char) = left at h
  cases h with
  | stop _ => exact absurd hleft.symm hne
  | skip hm _ => simp [hm]
  | emit hm _ => simp [hm]

end Cuts

/-- The cut of a source, with the tokens and the fault of its scan. -/
theorem exists_cuts_of_scan (source : String) :
    ∃ ps left, Cuts Position.start source.toList ps left ∧
      scan source = ⟨ps.filterMap Piece.token?,
        left.head?.map fun c => ⟨c, Position.start.advance (textOf ps)⟩⟩ := by
  obtain ⟨ps, left, h⟩ := Cuts.exists_cuts Position.start source.toList
  exact ⟨ps, left, h, h.feed_eq source.toList⟩

theorem read_mem_of_mem {ps : List Piece} {t : Token} (h : t ∈ ps.filterMap Piece.token?) :
    Piece.read t ∈ ps := by
  obtain ⟨x, hx, ht⟩ := List.mem_filterMap.1 h
  cases x with
  | skipped w => cases ht
  | read u =>
    cases ht
    exact hx

/-- A source is cut into pieces without loss. Skipped pieces are whole blanks or comments, the
other pieces are the tokens in order, each at the place that the pieces before it lead to; and
what is left over is nothing, or begins with a character that the scanner refuses there. -/
theorem scan_lossless (source : String) :
    ∃ pieces rest,
      source.toList = textOf pieces ++ rest ∧
      (∀ x ∈ pieces, x.text ≠ []) ∧
      (∀ before w after, pieces = before ++ .skipped w :: after →
        Skipped w (textOf after ++ rest)) ∧
      (scan source).tokens = pieces.filterMap Piece.token? ∧
      (∀ before t after, pieces = before ++ .read t :: after →
        t.position = Position.start.advance (textOf before)) ∧
      match (scan source).fault? with
      | none => rest = []
      | some fault =>
        rest.head? = some fault.character ∧ firstMatch rest = none ∧
          fault.position = Position.start.advance (textOf pieces) := by
  obtain ⟨pieces, rest, h⟩ := Cuts.exists_cuts Position.start source.toList
  have hfeed : scan source = _ := h.feed_eq source.toList
  refine ⟨pieces, rest, h.whole, h.text_ne_nil, fun _ _ _ => h.skipped, ?_,
    fun _ _ _ => h.position_eq, ?_⟩
  · rw [hfeed]
  · rw [hfeed]
    cases rest with
    | nil => rfl
    | cons c cs => exact ⟨rfl, h.firstMatch_left, rfl⟩

end Scriptlet
