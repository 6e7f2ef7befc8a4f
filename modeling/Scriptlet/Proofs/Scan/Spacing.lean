import Mathlib.Data.List.Forall2
import Scriptlet.Proofs.Scan.Boundary
import Scriptlet.Proofs.Scan.Printing

/-!
# Scriptlet.Proofs.Scan.Spacing

The text between the tokens of a source:

* `Spaced source xs tail`  — the source is the lexemes of its tokens, with the trivia `x.gap` before
                             each of them and `tail` after the last one.
* `Respaces xs ys`         — the same lexemes, with trivia wherever there were some between two.

Every source that can be scanned is spaced in some way (`exists_spaced`), and `Respaces.spaced`
says that the text between its tokens may be exchanged. A token that directly followed another one
may still do so: the lexeme before it ends at the same character as before.
-/

namespace Scriptlet

def Token.word (t : Token) : Kind × String := (t.kind, t.lexeme)

def Printed.word (x : Printed) : Kind × String := (x.kind, String.ofList x.lexeme)

structure Spaced (source : String) (xs : List Printed) (tail : List Char) : Prop where
  text : source.toList = printText xs tail
  gaps : ∀ x ∈ xs, Trivia x.gap
  final : FinalTrivia tail
  tokens : ∃ ts, tokenize source = .ok ts ∧ ts.map Token.word = xs.map Printed.word

structure Respaces (xs ys : List Printed) : Prop where
  words : List.Forall₂ (fun x y => y.kind = x.kind ∧ y.lexeme = x.lexeme) xs ys
  gaps : ∀ y ∈ ys, Trivia y.gap
  /-- Where two tokens were apart, they still are. -/
  apart : List.Forall₂ (fun x y => x.gap ≠ [] → y.gap ≠ []) xs.tail ys.tail

/-! ## Every scan gives a spacing -/

/-- The tokens among some pieces, each with what was passed over before it, and what was passed
over after the last one. -/
def spacing : List Piece → List Printed × List Char
  | [] => ([], [])
  | .read t :: ps => (⟨[], t.kind, t.lexeme.toList⟩ :: (spacing ps).1, (spacing ps).2)
  | .skipped w :: ps =>
    match (spacing ps).1 with
    | [] => ([], w ++ (spacing ps).2)
    | x :: xs => ({ x with gap := w ++ x.gap } :: xs, (spacing ps).2)

theorem textOf_eq_printText (ps : List Piece) :
    textOf ps = printText (spacing ps).1 (spacing ps).2 := by
  induction ps with
  | nil => rfl
  | cons x ps ih =>
    cases x with
    | read t => simp [spacing, printText_cons, ih, Piece.text]
    | skipped w =>
      rw [textOf_cons, ih, spacing]
      split
      · rename_i hxs
        simp [hxs, printText, Piece.text]
      · rename_i x xs hxs
        simp [hxs, printText_cons, Piece.text]

theorem words_spacing (ps : List Piece) :
    (spacing ps).1.map Printed.word = (ps.filterMap Piece.token?).map Token.word := by
  induction ps with
  | nil => rfl
  | cons x ps ih =>
    cases x with
    | read t =>
      rw [spacing, List.map_cons, ih]
      simp [Piece.token?, Printed.word, Token.word]
    | skipped w =>
      rw [List.filterMap_cons_none rfl, ← ih, spacing]
      split
      · rename_i hxs
        rw [hxs]
      · rename_i x xs hxs
        rw [hxs]
        rfl

theorem Trivia.tail_of_lineFeed {w : List Char} (h : Trivia ('\n' :: w)) : Trivia w := by
  generalize hcs : '\n' :: w = cs at h
  cases h with
  | nil => cases hcs
  | blank _ hw =>
    cases hcs
    exact hw
  | line _ _ => cases hcs
  | block hb _ =>
    obtain ⟨⟨body, rfl⟩, -⟩ := hb
    cases hcs

/-- What a rule passes over, in front of trivia that go on up to the next token. -/
theorem Skipped.trivia {w gap rest : List Char} (h : Skipped w (gap ++ rest)) (hgap : Trivia gap)
    (hrest : ∃ c ∈ rest.head?, c ≠ '\n') : Trivia (w ++ gap) := by
  cases h with
  | blanks _ hw _ => exact .blanks hw hgap
  | @line body _ hb hend =>
    cases gap with
    | nil =>
      obtain ⟨c, hc, hne⟩ := hrest
      exact absurd (hend c hc) hne
    | cons c gap =>
      obtain rfl : c = '\n' := hend c rfl
      exact .line hb hgap.tail_of_lineFeed
  | block hb => exact .block hb hgap

/-- A comment at the very end of a text needs no line feed after it. -/
theorem Skipped.final {w tail : List Char} (h : Skipped w tail) (htail : FinalTrivia tail) :
    FinalTrivia (w ++ tail) := by
  have prepend : (∀ {u}, Trivia u → Trivia (w ++ u)) → FinalTrivia (w ++ tail) := by
    intro happ
    rcases htail with ht | ⟨u, body, hu, hb, rfl⟩
    · exact .inl (happ ht)
    · exact .inr ⟨w ++ u, body, happ hu, hb, by simp⟩
  cases h with
  | blanks _ hw _ => exact prepend fun hu => .blanks hw hu
  | block hb => exact prepend fun hu => .block hb hu
  | @line body _ hb hend =>
    rcases htail with ht | ⟨u, body', hu, hb', rfl⟩
    · cases tail with
      | nil => exact .inr ⟨[], body, .nil, hb, by simp⟩
      | cons c t =>
        obtain rfl : c = '\n' := hend c rfl
        exact .inl (.line hb ht.tail_of_lineFeed)
    · cases u with
      | nil => exact absurd (hend '/' rfl) (by decide)
      | cons c u =>
        obtain rfl : c = '\n' := hend c rfl
        exact .inr ⟨_, body', .line hb hu.tail_of_lineFeed, hb', by simp⟩

theorem lexeme_of_mem_spacing {p : Position} {cs left : List Char} {ps : List Piece}
    (h : Cuts p cs ps left) {x : Printed} (hx : x ∈ (spacing ps).1) : x.kind.Lexeme x.lexeme := by
  have hword : x.word ∈ (spacing ps).1.map Printed.word := List.mem_map_of_mem hx
  rw [words_spacing, List.mem_map] at hword
  obtain ⟨t, ht, heq⟩ := hword
  obtain ⟨hk, hl⟩ := Prod.mk.inj heq
  have hlex := h.lexeme t (read_mem_of_mem ht)
  rwa [hk, hl, String.toList_ofList] at hlex

theorem Cuts.spaced {p : Position} {cs : List Char} {ps : List Piece} (h : Cuts p cs ps []) :
    (∀ x ∈ (spacing ps).1, Trivia x.gap) ∧ FinalTrivia (spacing ps).2 := by
  generalize hleft : ([] : List Char) = left at h
  induction h with
  | stop _ => exact ⟨by simp [spacing], .inl .nil⟩
  | @skip p cs w rest left ps hm hrest ih =>
    obtain ⟨hgaps, hfinal⟩ := ih hleft
    have hskip : Skipped w rest := skipped_of_firstMatch hm rfl
    rw [hrest.whole, ← hleft, List.append_nil, textOf_eq_printText] at hskip
    rw [spacing]
    split
    · rename_i hxs
      rw [hxs] at hskip
      exact ⟨by simp, hskip.final hfinal⟩
    · rename_i x xs hxs
      rw [hxs] at hskip hgaps
      rw [printText_cons] at hskip
      have hlex : x.kind.Lexeme x.lexeme := lexeme_of_mem_spacing hrest (by rw [hxs]; simp)
      refine ⟨?_, hfinal⟩
      rintro y (_ | ⟨_, hy⟩)
      · refine hskip.trivia (hgaps x List.mem_cons_self) ?_
        obtain ⟨c, ds, hcs, hc⟩ := separates_head_lexeme hlex
        refine ⟨c, by simp [hcs], ?_⟩
        rintro rfl
        simp [separates, isBlank_lineFeed] at hc
      · exact hgaps y (List.mem_cons_of_mem x hy)
  | @emit p cs w rest left ps kind hm hrest ih =>
    obtain ⟨hgaps, hfinal⟩ := ih hleft
    refine ⟨?_, hfinal⟩
    rintro x (_ | ⟨_, hx⟩)
    · exact .nil
    · exact hgaps x hx

theorem exists_spaced {source : String} {ts : List Token} (h : tokenize source = .ok ts) :
    ∃ xs tail, Spaced source xs tail := by
  obtain ⟨ps, left, hcuts, hscan⟩ := exists_cuts_of_scan source
  rw [tokenize_eq_ok_iff.1 h] at hscan
  obtain ⟨hts, hleft⟩ := Feed.mk.inj hscan
  obtain rfl : left = [] := by simpa using hleft.symm
  have htext := hcuts.whole
  rw [List.append_nil, textOf_eq_printText] at htext
  exact ⟨_, _, htext, hcuts.spaced.1, hcuts.spaced.2, ts, h, by rw [words_spacing, hts]⟩

/-! ## What a spacing says about lexemes -/

/-- A scanner before the lexeme of its first token takes the lexeme in one match. -/
theorem firstMatch_of_feed {source w rest : List Char} {p : Position} {t : Token} {ts : List Token}
    (hfeed : (Scanner.mk source (w ++ rest) p).feed = ⟨t :: ts, none⟩)
    (hl : t.lexeme = String.ofList w) (hw : t.kind.Lexeme w) :
    firstMatch (w ++ rest) = some ⟨w, rest, .emit t.kind⟩ ∧
      (Scanner.mk source rest (p.advance w)).feed = ⟨ts, none⟩ := by
  obtain ⟨c, cs, hcs, hc⟩ := separates_head_lexeme hw
  cases hm : firstMatch (w ++ rest) with
  | none =>
    rw [hcs, List.cons_append] at hm hfeed
    rw [Scanner.feed_fault (Scanner.nextToken_fault rfl hm)] at hfeed
    cases hfeed
  | some m =>
    obtain ⟨piece, after, action⟩ := m
    have happ : piece ++ after = w ++ rest := (firstMatch_append hm).1
    cases action with
    | skip =>
      obtain ⟨d, ds, hds, hd⟩ := (skipped_of_firstMatch hm rfl).separates
      obtain rfl : piece = d :: ds := hds
      rw [hcs] at happ
      obtain rfl : d = c := (List.cons.inj happ).1
      rw [hd] at hc
      cases hc
    | emit kind =>
      have hnext := Scanner.nextToken_emit (s := ⟨source, w ++ rest, p⟩) hm rfl
      have hpass : (Scanner.mk source (w ++ rest) p).pass ⟨piece, after, .emit kind⟩ =
          Scanner.mk source after (p.advance piece) := rfl
      rw [Scanner.feed_token hnext, hpass] at hfeed
      obtain ⟨htokens, hfault⟩ := Feed.mk.inj hfeed
      obtain ⟨rfl, rfl⟩ := List.cons.inj htokens
      obtain rfl : piece = w := String.ofList_injective hl
      obtain rfl : after = rest := List.append_cancel_left happ
      exact ⟨rfl, congrArg (Feed.mk _) hfault⟩

/-- A scan that gives the tokens of a printed text lets each lexeme end where it was printed. -/
theorem readsBack_of_feed {source : List Char} {xs : List Printed} {tail : List Char}
    {ts : List Token} {p : Position}
    (hfeed : (Scanner.mk source (printText xs tail) p).feed = ⟨ts, none⟩)
    (hwords : ts.map Token.word = xs.map Printed.word)
    (hgaps : ∀ x ∈ xs, Trivia x.gap) (hts : ∀ t ∈ ts, t.kind.Printable t.lexeme.toList) :
    ReadsBack xs tail := by
  induction xs generalizing ts p with
  | nil => trivial
  | cons x xs ih =>
    obtain ⟨t, us, rfl, ht, hus⟩ := List.map_eq_cons_iff.1 hwords
    obtain ⟨hk, hl⟩ : t.kind = x.kind ∧ t.lexeme = String.ofList x.lexeme := Prod.mk.inj ht
    have hx := hts t List.mem_cons_self
    rw [hl, String.toList_ofList] at hx
    rw [printText_cons, Scanner.feed_eq_of_nextToken_eq
      (nextToken_trivia (hgaps x List.mem_cons_self))] at hfeed
    obtain ⟨hm, hrest⟩ := firstMatch_of_feed hfeed hl hx.1
    have hends := ends_of_firstMatch hm rfl
    rw [hk] at hx hends
    exact ⟨hx, hends, ih hrest hus (fun y hy => hgaps y (List.mem_cons_of_mem x hy))
      fun u hu => hts u (List.mem_cons_of_mem t hu)⟩

theorem Spaced.readsBack {source : String} {xs : List Printed} {tail : List Char}
    (h : Spaced source xs tail) : ReadsBack xs tail := by
  obtain ⟨ts, hts, hwords⟩ := h.tokens
  have hscan := tokenize_eq_ok_iff.1 hts
  have hprintable := printable_of_mem_tokens hscan
  rw [scan, Scanner.start, h.text] at hscan
  exact readsBack_of_feed hscan hwords h.gaps hprintable

/-! ## Exchanging the text between tokens -/

theorem head?_printText {x y : Printed} {xs ys : List Printed} {tail tail' : List Char}
    (hx : x.gap = []) (hy : y.gap = []) (h : y.lexeme = x.lexeme) (hne : x.lexeme ≠ []) :
    (printText (y :: ys) tail').head? = (printText (x :: xs) tail).head? := by
  rw [printText_cons, printText_cons, hx, hy, h]
  cases hl : x.lexeme with
  | nil => exact absurd hl hne
  | cons c cs => rfl

/-- After a token that was followed by text, or by another token at once, the same token ends in
the new text. -/
theorem ends_of_respaces {k : Kind} {xs ys : List Printed} {tail tail' : List Char}
    (hwords : List.Forall₂ (fun x y : Printed => y.kind = x.kind ∧ y.lexeme = x.lexeme) xs ys)
    (hgaps : ∀ y ∈ ys, Trivia y.gap)
    (hapart : List.Forall₂ (fun x y : Printed => x.gap ≠ [] → y.gap ≠ []) xs ys)
    (hback : ReadsBack xs tail) (hends : k.Ends (printText xs tail))
    (htail : FinalTrivia tail') : k.Ends (printText ys tail') := by
  cases hwords with
  | nil => exact (separated_of_finalTrivia htail).ends k
  | @cons x y xs ys hxy _ =>
    have htrivia := hgaps y List.mem_cons_self
    cases hg : y.gap with
    | nil =>
      obtain ⟨hkeep, -⟩ := List.forall₂_cons.1 hapart
      have hx : x.gap = [] := by
        by_contra hne
        exact hkeep hne hg
      obtain ⟨c, cs, hcs, -⟩ := separates_head_lexeme hback.1.1
      have hhead : (printText (y :: ys) tail').head? = (printText (x :: xs) tail).head? :=
        head?_printText hx hg hxy.2 (by simp [hcs])
      intro d hd
      exact hends d (hhead ▸ hd)
    | cons c cs =>
      refine Separated.ends ?_ k
      intro d hd
      rw [printText_cons, hg] at hd
      exact separated_of_trivia htrivia d (by rw [hg]; exact hd)

theorem Respaces.readsBack {xs ys : List Printed} {tail tail' : List Char} (h : Respaces xs ys)
    (hback : ReadsBack xs tail) (htail : FinalTrivia tail') : ReadsBack ys tail' := by
  obtain ⟨hwords, hgaps, hapart⟩ := h
  induction hwords with
  | nil => trivial
  | @cons x y xs ys hxy hwords ih =>
    obtain ⟨hx, hends, hrest⟩ := hback
    have hgaps' : ∀ z ∈ ys, Trivia z.gap := fun z hz => hgaps z (List.mem_cons_of_mem y hz)
    rw [List.tail_cons, List.tail_cons] at hapart
    have hends' := ends_of_respaces hwords hgaps' hapart hrest hends htail
    rw [ReadsBack, hxy.1, hxy.2]
    refine ⟨hx, hends', ih hrest hgaps' ?_⟩
    cases hapart with
    | nil => exact .nil
    | cons _ hlater => exact hlater

theorem Respaces.word_eq {xs ys : List Printed} (h : Respaces xs ys) :
    ys.map Printed.word = xs.map Printed.word := by
  obtain ⟨hwords, -, -⟩ := h
  induction hwords with
  | nil => rfl
  | cons hxy _ ih => rw [List.map_cons, List.map_cons, ih, Printed.word, Printed.word, hxy.1, hxy.2]

/-- The new text is spaced as it was written: its tokens have the same kinds and lexemes. -/
theorem Respaces.spaced {source : String} {xs ys : List Printed} {tail tail' : List Char}
    (h : Respaces xs ys) (hsource : Spaced source xs tail) (htail : FinalTrivia tail') :
    Spaced (String.ofList (printText ys tail')) ys tail' := by
  have hback := h.readsBack hsource.readsBack htail
  obtain ⟨ts, hfeed, hts⟩ := feed_of_readsBack hback h.gaps htail (printText ys tail') .start
  refine ⟨String.toList_ofList, h.gaps, htail, ts, ?_, hts⟩
  rw [tokenize_eq_ok_iff, scan, String.toList_ofList, Scanner.start, hfeed]

end Scriptlet
