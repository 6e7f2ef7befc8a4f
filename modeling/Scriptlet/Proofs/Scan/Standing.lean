import Scriptlet.Proofs.Scan.Boundary
import Scriptlet.Proofs.Text.Place

/-!
# Scriptlet.Proofs.Scan.Standing

Where tokens and faults stand in a text:

* `Token.StandsIn t cs before after`      — the lexeme of `t` lies between `before` and `after`,
                                            where the position of `t` says.
* `ScanFault.StandsIn f cs before after`  — the same for the character of a fault.

Every token and every fault of a scan stands in the source (`exists_standsIn`), and nowhere else
(`Token.StandsIn.unique`). A scanner only goes forward, so each token stands after those before it
(`positions_increase`). `position_names_place` says what a position tells of a text.
-/

namespace Scriptlet

structure Token.StandsIn (t : Token) (cs before after : List Char) : Prop where
  text : cs = before ++ (t.lexeme.toList ++ after)
  position : t.position = Position.start.advance before

structure ScanFault.StandsIn (f : ScanFault) (cs before after : List Char) : Prop where
  text : cs = before ++ f.character :: after
  position : f.position = Position.start.advance before

theorem Token.StandsIn.unique {t : Token} {cs before after before' after' : List Char}
    (h : t.StandsIn cs before after) (h' : t.StandsIn cs before' after') :
    before = before' ∧ after = after' := by
  have hsame := Position.eq_of_advance_eq (h.text.symm.trans h'.text)
    (h.position.symm.trans h'.position)
  exact ⟨hsame.1, List.append_cancel_left hsame.2⟩

theorem Cuts.standsIn {cs left : List Char} {ps before after : List Piece} {t : Token}
    (h : Cuts Position.start cs ps left) (hps : ps = before ++ .read t :: after) :
    t.StandsIn cs (textOf before) (textOf after ++ left) := by
  refine ⟨?_, h.position_eq hps⟩
  rw [h.whole, hps]
  simp [textOf, Piece.text]

theorem exists_standsIn {source : String} {t : Token} (h : t ∈ (scan source).tokens) :
    ∃ before after, t.StandsIn source.toList before after := by
  obtain ⟨ps, left, hcuts, hscan⟩ := exists_cuts_of_scan source
  rw [hscan] at h
  obtain ⟨before, after, hps⟩ := List.append_of_mem (read_mem_of_mem h)
  exact ⟨_, _, hcuts.standsIn hps⟩

theorem Cuts.le_position {p : Position} {cs left : List Char} {ps : List Piece} {t : Token}
    (h : Cuts p cs ps left) (ht : t ∈ ps.filterMap Piece.token?) : p ≤ t.position := by
  obtain ⟨before, after, hps⟩ := List.append_of_mem (read_mem_of_mem ht)
  rw [h.position_eq hps]
  exact p.le_advance _

theorem Cuts.positions_increase {p : Position} {cs left : List Char} {ps : List Piece}
    (h : Cuts p cs ps left) :
    ((ps.filterMap Piece.token?).map Token.position).Pairwise (· < ·) := by
  induction h with
  | stop _ => exact .nil
  | skip _ _ ih => exact ih
  | @emit p cs w rest left ps kind hm hrest ih =>
    refine .cons ?_ ih
    intro q hq
    obtain ⟨t, ht, rfl⟩ := List.mem_map.1 hq
    -- The lexeme lies between the two tokens.
    exact (Position.lt_advance (firstMatch_append hm).2 p).trans_le (hrest.le_position ht)

/-- Each token of a scanner stands after those that were given before it. -/
theorem Scanner.positions_increase (s : Scanner) :
    (s.feed.tokens.map Token.position).Pairwise (· < ·) := by
  obtain ⟨ps, left, hcuts⟩ := Cuts.exists_cuts s.position s.rest
  rw [hcuts.feed_eq s.source]
  exact hcuts.positions_increase

/-- The tokens of a text stand at different positions. -/
theorem nodup_positions (source : String) : ((scan source).tokens.map Token.position).Nodup :=
  (Scanner.start source.toList).positions_increase.imp ne_of_lt

theorem index_unique {source : String} {i j : Nat} {t u : Token}
    (ht : (scan source).tokens[i]? = some t) (hu : (scan source).tokens[j]? = some u) :
    u.position = t.position ↔ j = i := by
  constructor
  · intro hp
    obtain ⟨hj, -⟩ := List.getElem?_eq_some_iff.1 hu
    have hlt : j < ((scan source).tokens.map Token.position).length := by
      rwa [List.length_map]
    refine (List.getElem?_inj hlt (nodup_positions source)).1 ?_
    rw [List.getElem?_map, List.getElem?_map, ht, hu, Option.map_some, Option.map_some, hp]
  · rintro rfl
    rw [Option.some.inj (ht.symm.trans hu)]

/-- A fault stands at a character with which no match begins. -/
theorem fault_standsIn {source : String} {f : ScanFault} (h : (scan source).fault? = some f) :
    ∃ before after, f.StandsIn source.toList before after ∧
      firstMatch (f.character :: after) = none := by
  obtain ⟨ps, left, hcuts, hscan⟩ := exists_cuts_of_scan source
  rw [hscan] at h
  obtain ⟨c, hc, rfl⟩ := Option.map_eq_some_iff.1 h
  obtain ⟨after, rfl⟩ := List.head?_eq_some_iff.1 hc
  exact ⟨textOf ps, after, ⟨hcuts.whole, rfl⟩, hcuts.firstMatch_left⟩

/-- Reading a text in pieces leads to the position that reading it at once leads to. After the
beginning of a text the line counts its line feeds and the column what stands after the last of
them, so the two lead back to the place. A longer beginning has a greater position, and so has a
later token of a scanner. -/
theorem position_names_place :
    (∀ (p : Position) (before after : List Char),
      p.advance (before ++ after) = (p.advance before).advance after) ∧
    (∀ text before after : List Char, text = before ++ after →
      (Position.start.advance before).line = before.count '\n' + 1 ∧
      (Position.start.advance before).column = (lastLine before).length ∧
      ((text.splitOn '\n')[(Position.start.advance before).line - 1]?).map
          (List.drop (Position.start.advance before).column) =
        some (after.takeWhile fun c => c ≠ '\n')) ∧
    (∀ text before before' : List Char, before <+: text → before' <+: text →
      before.length < before'.length →
      Position.start.advance before < Position.start.advance before') ∧
    ∀ s : Scanner, (s.feed.tokens.map Token.position).Pairwise (· < ·) ∧
      (s.feed.tokens.map Token.position).Nodup := by
  refine ⟨Position.advance_append, ?_, ?_, fun s => ⟨s.positions_increase, ?_⟩⟩
  · rintro text before after rfl
    refine ⟨?_, ?_, drop_column before after⟩
    · rw [Position.advance_start]
    · rw [Position.advance_start]
  · intro text before before' h h' hlt
    exact Position.advance_lt_advance h h' hlt _
  · exact s.positions_increase.imp ne_of_lt

theorem position_names_place_secondLine :
    "if\r\nx = 1".toList = "if\r\nx".toList ++ " = 1".toList ∧
      (Position.start.advance "if\r\nx".toList).line = 2 ∧
      (Position.start.advance "if\r\nx".toList).column = 1 ∧
      (("if\r\nx = 1".toList.splitOn '\n')[
          (Position.start.advance "if\r\nx".toList).line - 1]?).map
          (List.drop (Position.start.advance "if\r\nx".toList).column) = some " = 1".toList ∧
      Position.start.advance "if\r".toList < Position.start.advance "if\r\n".toList := by
  obtain ⟨-, hplace, hlonger, -⟩ := position_names_place
  obtain ⟨hline, hcolumn, hrest⟩ := hplace "if\r\nx = 1".toList "if\r\nx".toList " = 1".toList rfl
  refine ⟨rfl, hline, hcolumn, hrest, ?_⟩
  exact hlonger "if\r\nx = 1".toList _ _ (by decide) (by decide) (by decide)

end Scriptlet
