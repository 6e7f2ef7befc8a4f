import Scriptlet.Proofs.Scan.Boundary
import Scriptlet.Proofs.Scan.Printing
import Scriptlet.Proofs.Text.Place

/-!
# Scriptlet.Proofs.Scan.NextLine

A text that goes on in a new line:

* `Position.below n p`  — the place `n` lines below `p`, in the same column; `Token.below`,
                          `ScanFault.below` and `Feed.below` move what stands in a text.
* `Feed.after ts f`     — a feed after some tokens.

No token but a string has a line feed in it, and every token ends before one, so a token is matched
if and only if it is matched with a new line after the text (`firstMatch_emit_lineFeed`). What was
passed over at the end of the text may grow, which changes nothing in the feed. `scan_nextLine` says
that two texts that stand one below the other are scanned apart; a text with a fault is refused
where it was before, unless its fault is at a character with which a string or a comment begins.
-/

namespace Scriptlet

/-! ## Words before a line feed -/

theorem separates_lineFeed : separates '\n' = true := by
  rw [separates, isBlank_lineFeed, Bool.true_or]

theorem head?_lineFeed {cs : List Char} (more : List Char) {c : Char} (hc : c ≠ '\n') :
    c ∈ (cs ++ '\n' :: more).head? ↔ c ∈ cs.head? := by
  cases cs with
  | nil => simp [hc.symm]
  | cons d cs => rfl

theorem Kind.ends_lineFeed {k : Kind} {rest : List Char} (more : List Char) :
    k.Ends (rest ++ '\n' :: more) ↔ k.Ends rest := by
  cases rest with
  | nil =>
    refine ⟨fun _ => nofun, fun _ => Separated.ends (fun c hc => ?_) k⟩
    cases hc
    exact separates_lineFeed
  | cons c cs => rfl

theorem prefix_lineFeed {v cs : List Char} (more : List Char) (hv : '\n' ∉ v) :
    v <+: cs ++ '\n' :: more ↔ v <+: cs := by
  constructor
  · intro h
    rcases List.prefix_or_prefix_of_prefix h (List.prefix_append cs _) with hpre | ⟨u, rfl⟩
    · exact hpre
    · cases u with
      | nil => simp
      | cons c u =>
        obtain ⟨rfl, -⟩ := List.cons_prefix_cons.1 ((List.prefix_append_right_inj cs).1 h)
        exact absurd (List.mem_append_right cs List.mem_cons_self) hv
  · exact fun h => h.trans (List.prefix_append cs _)

theorem unreserved_lineFeed {cs : List Char} (more : List Char) :
    Unreserved (cs ++ '\n' :: more) ↔ Unreserved cs := by
  have hwords : ∀ v ∈ reservedWords, '\n' ∉ v.toList := by decide
  have hext : ∀ {c}, extendsWord c = true → c ≠ '\n' := by
    rintro c hc rfl
    rw [(apart_of_separates separates_lineFeed).2.2.1] at hc
    cases hc
  constructor
  · rintro h v hv rest rfl
    obtain ⟨c, hc, he⟩ := h v hv (rest ++ '\n' :: more) (List.append_assoc ..)
    exact ⟨c, (head?_lineFeed more (hext he)).1 hc, he⟩
  · intro h v hv after happ
    obtain ⟨rest, rfl⟩ := (prefix_lineFeed more (hwords v hv)).1 ⟨after, happ.symm⟩
    obtain rfl : rest ++ '\n' :: more = after := by simpa using happ
    obtain ⟨c, hc, he⟩ := h v hv rest rfl
    exact ⟨c, (head?_lineFeed more (hext he)).2 hc, he⟩

/-- No token but a string goes on in the next line. -/
theorem lineFeed_not_mem_lexeme {k : Kind} {w : List Char} (hk : k ≠ .string)
    (h : k.Lexeme w) : '\n' ∉ w := by
  obtain ⟨hstart, hname, -, hdigit⟩ := apart_of_separates separates_lineFeed
  intro hmem
  by_cases hspelled : k.spelled = true
  · obtain ⟨v, hv, rfl⟩ := (Kind.lexeme_iff_of_spelled hspelled).1 h
    have hno := Kind.mem_all_of_spellings (P := fun _ v => decide ('\n' ∉ v.toList))
      (by decide) hv
    exact of_decide_eq_true hno hmem
  · cases k with
    | number =>
      rw [h.2 _ hmem] at hdigit
      cases hdigit
    | string => exact hk rfl
    | identifier =>
      obtain ⟨c, cs, rfl, hc, hcs⟩ := h
      rcases List.mem_cons.1 hmem with rfl | hmem
      · rw [hc] at hstart
        cases hstart
      · rw [hcs _ hmem] at hname
        cases hname
    | _ => exact hspelled rfl

/-! ## Matches before a line feed -/

theorem firstMatch_emit_lineFeed {k : Kind} {w rest : List Char} (more : List Char) :
    firstMatch (w ++ (rest ++ '\n' :: more)) = some ⟨w, rest ++ '\n' :: more, .emit k⟩ ↔
      firstMatch (w ++ rest) = some ⟨w, rest, .emit k⟩ := by
  rw [firstMatch_emit_iff, firstMatch_emit_iff, Kind.ends_lineFeed, ← List.append_assoc,
    unreserved_lineFeed]

/-- A character that is refused at the front of a text is refused if the text goes on, unless it
begins a string or a comment, which may be complete only then. -/
theorem firstMatch_eq_none_lineFeed {c : Char} {cs : List Char} (more : List Char)
    (h : firstMatch (c :: cs) = none) (hslash : c ≠ '/') (hquote : Quote.ofCharacter? c = none) :
    firstMatch (c :: cs ++ '\n' :: more) = none := by
  have hsep : separates c = false := by
    simp [separates, isBlank_of_firstMatch_eq_none h, hslash]
  cases hm : firstMatch (c :: cs ++ '\n' :: more) with
  | none => rfl
  | some m =>
    exfalso
    obtain ⟨w, after, action⟩ := m
    cases action with
    | skip =>
      obtain ⟨d, v, rfl, hd⟩ := (skipped_of_firstMatch hm rfl).separates
      obtain ⟨rfl, -⟩ := List.cons.inj (firstMatch_append hm).1
      rw [hd] at hsep
      cases hsep
    | emit k =>
      have hlex : k.Lexeme w := lexeme_of_firstMatch hm rfl
      have happ : w ++ after = c :: cs ++ '\n' :: more := (firstMatch_append hm).1
      have hk : k ≠ .string := by
        rintro rfl
        obtain ⟨q, inner, -, rfl⟩ := hlex
        obtain ⟨rfl, -⟩ := List.cons.inj happ
        rw [Quote.ofCharacter?_character] at hquote
        cases hquote
      have hline := lineFeed_not_mem_lexeme hk hlex
      obtain ⟨rest, hrest⟩ := (prefix_lineFeed more hline).1 ⟨after, happ⟩
      rw [← hrest, List.append_assoc] at happ hm
      obtain rfl := List.append_cancel_left happ
      rw [← hrest, (firstMatch_emit_lineFeed more).1 hm] at h
      cases h

/-- What is passed over at the end of a text is passed over if the text goes on. -/
theorem Skipped.nextToken_lineFeed {w rest : List Char} (h : Skipped w rest)
    (source more : List Char) (p : Position) :
    (Scanner.mk source (w ++ (rest ++ '\n' :: more)) p).nextToken =
      (Scanner.mk source (rest ++ '\n' :: more) (p.advance w)).nextToken := by
  cases h with
  | blanks _ hw _ =>
    have htrivia : Trivia (w ++ []) := .blanks hw .nil
    rw [List.append_nil] at htrivia
    exact nextToken_trivia htrivia
  | line hbody hend =>
    refine nextToken_lineComment hbody fun c hc => ?_
    cases rest with
    | nil => exact (Option.some.inj hc).symm
    | cons d rest => exact hend c hc
  | block hb => exact nextToken_blockComment hb

/-! ## Feeds -/

namespace Feed

def after (ts : List Token) (f : Feed) : Feed := ⟨ts ++ f.tokens, f.fault?⟩

@[simp] theorem after_cons (t : Token) (ts : List Token) (f : Feed) :
    f.after (t :: ts) = ⟨t :: (f.after ts).tokens, (f.after ts).fault?⟩ := rfl

end Feed

/-- A text that goes on in a new line gives its tokens, and then what the rest of it gives. -/
theorem Cuts.feed_lineFeed {p : Position} {cs left : List Char} {ps : List Piece}
    (h : Cuts p cs ps left) (source more : List Char) :
    (Scanner.mk source (cs ++ '\n' :: more) p).feed =
      (Scanner.mk source (left ++ '\n' :: more) (p.advance (textOf ps))).feed.after
        (ps.filterMap Piece.token?) := by
  induction h with
  | stop _ => rfl
  | @skip p cs w rest left ps hm _ ih =>
    obtain ⟨rfl, -⟩ := firstMatch_append hm
    have hskip := (skipped_of_firstMatch hm rfl).nextToken_lineFeed source more p
    rw [List.append_assoc, Scanner.feed_eq_of_nextToken_eq hskip, ih, textOf_cons,
      Position.advance_append]
    rfl
  | @emit p cs w rest left ps kind hm _ ih =>
    obtain ⟨rfl, -⟩ := firstMatch_append hm
    have hnext := Scanner.nextToken_emit (s := ⟨source, w ++ (rest ++ '\n' :: more), p⟩)
      ((firstMatch_emit_lineFeed more).2 hm) rfl
    rw [List.append_assoc, Scanner.feed_token hnext, Scanner.pass, ih, textOf_cons,
      Position.advance_append]
    simp [Piece.text, Piece.token?]

/-! ## Moving a text down -/

/-- The place `n` lines below a place. -/
def Position.below (n : Nat) (p : Position) : Position := ⟨p.line + n, p.column⟩

theorem Position.step_below (n : Nat) (p : Position) (c : Char) :
    (p.below n).step c = (p.step c).below n := by
  by_cases hc : c = '\n'
  · simp [step, below, hc, Nat.add_right_comm]
  · simp [step, below, hc]

theorem Position.advance_below (n : Nat) (p : Position) (cs : List Char) :
    (p.below n).advance cs = (p.advance cs).below n := by
  induction cs generalizing p with
  | nil => rfl
  | cons c cs ih => rw [advance_cons, step_below, ih, advance_cons]

/-- After a line feed a text begins as it would at the start of a source, but for its line. -/
theorem Position.step_lineFeed (p : Position) : p.step '\n' = start.below p.line := by
  rw [step, if_pos rfl, below, start, Nat.add_comm]

def Token.below (n : Nat) (t : Token) : Token := { t with position := t.position.below n }

def ScanFault.below (n : Nat) (f : ScanFault) : ScanFault :=
  { f with position := f.position.below n }

namespace Feed

def below (n : Nat) (f : Feed) : Feed := ⟨f.tokens.map (Token.below n), f.fault?.map (.below n)⟩

@[simp] theorem tokens_below (n : Nat) (f : Feed) :
    (f.below n).tokens = f.tokens.map (Token.below n) := rfl

@[simp] theorem fault?_below (n : Nat) (f : Feed) :
    (f.below n).fault? = f.fault?.map (.below n) := rfl

end Feed

/-- Only the places in a feed depend on where its text stands. -/
theorem Cuts.feed_below {p : Position} {cs left : List Char} {ps : List Piece}
    (h : Cuts p cs ps left) (n : Nat) (source source' : List Char) :
    (Scanner.mk source cs (p.below n)).feed = (Scanner.mk source' cs p).feed.below n := by
  induction h with
  | @stop p cs hm =>
    cases cs with
    | nil =>
      rw [Scanner.feed_finish (Scanner.nextToken_finish rfl),
        Scanner.feed_finish (Scanner.nextToken_finish rfl)]
      rfl
    | cons c cs =>
      rw [Scanner.feed_fault (Scanner.nextToken_fault rfl hm),
        Scanner.feed_fault (Scanner.nextToken_fault rfl hm)]
      rfl
  | skip hm _ ih =>
    rw [Scanner.feed_eq_of_nextToken_eq (nextToken_of_skip hm),
      Scanner.feed_eq_of_nextToken_eq (nextToken_of_skip hm), Position.advance_below, ih]
  | @emit p cs w rest left ps kind hm _ ih =>
    rw [Scanner.feed_token (Scanner.nextToken_emit (s := ⟨source, cs, p.below n⟩) hm rfl),
      Scanner.feed_token (Scanner.nextToken_emit (s := ⟨source', cs, p⟩) hm rfl),
      Scanner.pass, Scanner.pass, Position.advance_below, ih]
    rfl

/-! ## Sources that go on in a new line -/

theorem toList_nextLine (s t : String) :
    (s ++ "\n" ++ t).toList = s.toList ++ '\n' :: t.toList := by
  simp

/-- What a source gives that goes on where its cut stops. -/
theorem exists_scan_nextLine (s t : String) :
    ∃ ps left, Cuts Position.start s.toList ps left ∧
      scan s = ⟨ps.filterMap Piece.token?,
        left.head?.map fun c => ⟨c, Position.start.advance (textOf ps)⟩⟩ ∧
      scan (s ++ "\n" ++ t) =
        (Scanner.mk (s ++ "\n" ++ t).toList (left ++ '\n' :: t.toList)
          (Position.start.advance (textOf ps))).feed.after (scan s).tokens := by
  obtain ⟨ps, left, h, hscan⟩ := exists_cuts_of_scan s
  refine ⟨ps, left, h, hscan, ?_⟩
  rw [hscan, ← h.feed_lineFeed, ← toList_nextLine]
  rfl

/-- The tokens of a source are there if it goes on in a new line. -/
theorem exists_tokens_nextLine (s t : String) :
    ∃ more, (scan (s ++ "\n" ++ t)).tokens = (scan s).tokens ++ more := by
  obtain ⟨ps, left, -, -, hnext⟩ := exists_scan_nextLine s t
  rw [hnext]
  exact ⟨_, rfl⟩

/-- Two texts are scanned apart if the first one has no fault. -/
theorem scan_nextLine {s : String} {ts : List Token} (h : scan s = ⟨ts, none⟩) (t : String) :
    scan (s ++ "\n" ++ t) = ((scan t).below (s.toList.count '\n' + 1)).after ts := by
  obtain ⟨ps, left, hcuts, hscan, hnext⟩ := exists_scan_nextLine s t
  obtain rfl : left = [] := by
    rw [h] at hscan
    simpa using (Feed.mk.inj hscan).2.symm
  have hwhole : s.toList = textOf ps := by simpa using hcuts.whole
  have hplace : (Position.start.advance (textOf ps)).step '\n' =
      Position.start.below (s.toList.count '\n' + 1) := by
    rw [Position.step_lineFeed, ← hwhole, Position.advance_start]
  obtain ⟨qs, rest, hrest⟩ := Cuts.exists_cuts Position.start t.toList
  rw [hnext, List.nil_append, Scanner.feed_eq_of_nextToken_eq (nextToken_blank isBlank_lineFeed),
    hplace, hrest.feed_below _ _ t.toList, h]
  rfl

/-- A fault stays what it is, unless it is at a character that may begin a string or a comment. -/
theorem scan_nextLine_of_fault {s : String} {f : ScanFault} (h : (scan s).fault? = some f)
    (hslash : f.character ≠ '/') (hquote : Quote.ofCharacter? f.character = none) (t : String) :
    scan (s ++ "\n" ++ t) = scan s := by
  obtain ⟨ps, left, hcuts, hscan, hnext⟩ := exists_scan_nextLine s t
  rw [hscan] at h
  obtain ⟨c, hc, rfl⟩ := Option.map_eq_some_iff.1 h
  obtain ⟨cs, rfl⟩ := List.head?_eq_some_iff.1 hc
  have hm := firstMatch_eq_none_lineFeed t.toList hcuts.firstMatch_left hslash hquote
  rw [hnext, Scanner.feed_fault (Scanner.nextToken_fault rfl hm), hscan]
  simp [Feed.after]

/-- If the first of two texts has no fault, the lines are tokenized apart: what the second one
gives, its tokens or its fault, comes as far below as the first one has lines. -/
theorem tokenize_nextLine {s : String} {xs : List Token} (hs : tokenize s = .ok xs) (t : String) :
    (∀ ys, tokenize t = .ok ys → tokenize (s ++ "\n" ++ t) =
      .ok (xs ++ ys.map (Token.below (s.toList.count '\n' + 1)))) ∧
    ∀ e, tokenize t = .error e → tokenize (s ++ "\n" ++ t) =
      .error (e.below (s.toList.count '\n' + 1)) := by
  have hscan := scan_nextLine (tokenize_eq_ok_iff.1 hs) t
  constructor
  · intro ys ht
    rw [tokenize_eq_ok_iff, hscan, tokenize_eq_ok_iff.1 ht]
    rfl
  · intro e ht
    rw [tokenize_eq_error_iff] at ht ⊢
    simp [hscan, Feed.after, ht]

/-- A string that goes on in a second line, before a text that opens one and does not close it. -/
theorem tokenize_nextLine_string :
    tokenize "'\n'" = .ok [⟨.string, "'\n'", ⟨1, 0⟩⟩] ∧
      tokenize "if '" = .error ⟨'\'', ⟨1, 3⟩⟩ ∧
      tokenize ("'\n'" ++ "\n" ++ "if '") = .error ⟨'\'', ⟨3, 3⟩⟩ := by
  have hs : tokenize "'\n'" = .ok [⟨.string, "'\n'", ⟨1, 0⟩⟩] := by decide +kernel
  have ht : tokenize "if '" = .error ⟨'\'', ⟨1, 3⟩⟩ := by decide +kernel
  exact ⟨hs, ht, (tokenize_nextLine hs "if '").2 _ ht⟩

end Scriptlet
