import Scriptlet.Proofs.Scan.Delimited

/-!
# Scriptlet.Proofs.Scan.Printing

Scanning what was printed:

* `Printed`    — a token as it is printed, with the trivia before it.
* `printText`  — the text of some printed tokens and the trivia after the last one.

`feed_of_readsBack` reads one token after the other from such a text, provided that each lexeme ends
where the text after it begins (`ReadsBack`). Trivia between all tokens are enough for that
(`readsBack_of_apart`); `tokenize_printText` states it for `tokenize`. `exists_source_of_kinds`
prints a token of each kind of a list.
-/

namespace Scriptlet

structure Printed where
  gap : List Char
  kind : Kind
  lexeme : List Char

def Printed.text (x : Printed) : List Char := x.gap ++ x.lexeme

def printText (xs : List Printed) (tail : List Char) : List Char :=
  xs.flatMap Printed.text ++ tail

theorem printText_cons (x : Printed) (xs : List Printed) (tail : List Char) :
    printText (x :: xs) tail = x.gap ++ (x.lexeme ++ printText xs tail) := by
  simp [printText, Printed.text]

/-! ## Trivia separate -/

/-- A text that is empty or begins as trivia do. -/
def Separated (rest : List Char) : Prop := ∀ c ∈ rest.head?, separates c = true

/-- Every lexeme ends before trivia. -/
theorem Separated.ends {rest : List Char} (h : Separated rest) (k : Kind) : k.Ends rest := by
  intro c hc
  have hsep := h c hc
  obtain ⟨-, hname, hword, hdigit⟩ := apart_of_separates hsep
  have hne : ∀ d, separates d = false → (c == d) = false := by
    intro d hd
    rw [beq_eq_false_iff_ne]
    rintro rfl
    rw [hsep] at hd
    cases hd
  cases k with
  | number => exact hdigit
  | identifier => exact hname
  | comma => exact hne ')' (by decide +kernel)
  | assign => exact hne '=' (by decide +kernel)
  | boolean => exact hword
  | functionWord => exact hword
  | letWord => exact hword
  | ifWord => exact hword
  | elseWord => exact hword
  | forWord => exact hword
  | ofWord => exact hword
  | _ => rfl

theorem separated_of_trivia {w : List Char} (h : Trivia w) : Separated w := by
  intro c hc
  cases h with
  | nil => cases hc
  | blank hb _ =>
    cases hc
    simp [separates, hb]
  | line _ _ =>
    cases hc
    simp [separates]
  | block hb _ =>
    obtain ⟨⟨body, rfl⟩, -⟩ := hb
    cases hc
    simp [separates]

theorem Separated.append {w rest : List Char} (hw : Separated w) (hr : Separated rest) :
    Separated (w ++ rest) := by
  intro c hc
  cases w with
  | nil => exact hr c hc
  | cons d w => exact hw c hc

theorem separated_of_finalTrivia {w : List Char} (h : FinalTrivia w) : Separated w := by
  rcases h with h | ⟨v, body, hv, -, rfl⟩
  · exact separated_of_trivia h
  · refine (separated_of_trivia hv).append fun c hc => ?_
    cases hc
    simp [separates]

/-- After a token a printed text goes on with trivia. -/
theorem separated_printText {xs : List Printed} {tail : List Char}
    (hgap : ∀ x ∈ xs, Trivia x.gap) (hapart : ∀ x ∈ xs, x.gap ≠ []) (htail : FinalTrivia tail) :
    Separated (printText xs tail) := by
  cases xs with
  | nil => exact separated_of_finalTrivia htail
  | cons x xs =>
    intro c hc
    have hne := hapart x List.mem_cons_self
    have hx := separated_of_trivia (hgap x List.mem_cons_self)
    rw [printText_cons] at hc
    cases hg : x.gap with
    | nil => exact absurd hg hne
    | cons d ds =>
      rw [hg] at hc hx
      exact hx c hc

/-! ## Reading back -/

/-- Each lexeme is one that is read back as it is, and ends where the text after it begins. -/
def ReadsBack : List Printed → List Char → Prop
  | [], _ => True
  | x :: xs, tail =>
    x.kind.Printable x.lexeme ∧ x.kind.Ends (printText xs tail) ∧ ReadsBack xs tail

theorem readsBack_of_apart {xs : List Printed} {tail : List Char}
    (hlex : ∀ x ∈ xs, x.kind.Printable x.lexeme) (hgap : ∀ x ∈ xs, Trivia x.gap)
    (hapart : ∀ x ∈ xs.tail, x.gap ≠ []) (htail : FinalTrivia tail) : ReadsBack xs tail := by
  induction xs with
  | nil => trivial
  | cons x xs ih =>
    have hgap' : ∀ y ∈ xs, Trivia y.gap := fun y hy => hgap y (List.mem_cons_of_mem x hy)
    have hlex' : ∀ y ∈ xs, y.kind.Printable y.lexeme := fun y hy =>
      hlex y (List.mem_cons_of_mem x hy)
    exact ⟨hlex x List.mem_cons_self, (separated_printText hgap' hapart htail).ends x.kind,
      ih hlex' hgap' fun y hy => hapart y (List.mem_of_mem_tail hy)⟩

theorem nextToken_printText (source : List Char) (p : Position) {x : Printed} {rest : List Char}
    (hx : x.kind.Printable x.lexeme) (hgap : Trivia x.gap) (hr : x.kind.Ends rest) :
    (Scanner.mk source (x.gap ++ (x.lexeme ++ rest)) p).nextToken =
      (.token ⟨x.kind, String.ofList x.lexeme, p.advance x.gap⟩,
        Scanner.mk source rest ((p.advance x.gap).advance x.lexeme)) := by
  rw [nextToken_trivia hgap]
  exact Scanner.nextToken_emit (s := ⟨source, x.lexeme ++ rest, p.advance x.gap⟩)
    (firstMatch_printable hx hr) rfl

theorem feed_of_readsBack {xs : List Printed} {tail : List Char} (h : ReadsBack xs tail)
    (hgap : ∀ x ∈ xs, Trivia x.gap) (htail : FinalTrivia tail) (source : List Char)
    (p : Position) :
    ∃ ts, (Scanner.mk source (printText xs tail) p).feed = ⟨ts, none⟩ ∧
      ts.map (fun t => (t.kind, t.lexeme)) = xs.map fun x => (x.kind, String.ofList x.lexeme) := by
  induction xs generalizing p with
  | nil =>
    exact ⟨[], Scanner.feed_finish (nextToken_finalTrivia htail), rfl⟩
  | cons x xs ih =>
    obtain ⟨hx, hends, hxs⟩ := h
    have hgap' : ∀ y ∈ xs, Trivia y.gap := fun y hy => hgap y (List.mem_cons_of_mem x hy)
    obtain ⟨ts, hfeed, hts⟩ := ih hxs hgap' ((p.advance x.gap).advance x.lexeme)
    have hnext := nextToken_printText source p hx (hgap x List.mem_cons_self) hends
    rw [← printText_cons] at hnext
    refine ⟨⟨x.kind, String.ofList x.lexeme, p.advance x.gap⟩ :: ts, ?_, ?_⟩
    · rw [Scanner.feed_token hnext, hfeed]
    · rw [List.map_cons, List.map_cons, hts]

theorem feed_printText {xs : List Printed} {tail : List Char}
    (hlex : ∀ x ∈ xs, x.kind.Printable x.lexeme) (hgap : ∀ x ∈ xs, Trivia x.gap)
    (hapart : ∀ x ∈ xs.tail, x.gap ≠ []) (htail : FinalTrivia tail) (source : List Char)
    (p : Position) :
    ∃ ts, (Scanner.mk source (printText xs tail) p).feed = ⟨ts, none⟩ ∧
      ts.map (fun t => (t.kind, t.lexeme)) = xs.map fun x => (x.kind, String.ofList x.lexeme) :=
  feed_of_readsBack (readsBack_of_apart hlex hgap hapart htail) hgap htail source p

/-- A text that was printed with trivia between all tokens is read back as it was. -/
theorem tokenize_printText {xs : List Printed} {tail : List Char}
    (hlex : ∀ x ∈ xs, x.kind.Printable x.lexeme) (hgap : ∀ x ∈ xs, Trivia x.gap)
    (hapart : ∀ x ∈ xs.tail, x.gap ≠ []) (htail : FinalTrivia tail) :
    ∃ ts, tokenize (String.ofList (printText xs tail)) = .ok ts ∧
      ts.map (fun t => (t.kind, t.lexeme)) = xs.map fun x => (x.kind, String.ofList x.lexeme) := by
  obtain ⟨ts, hfeed, hts⟩ := feed_printText hlex hgap hapart htail (printText xs tail) .start
  refine ⟨ts, ?_, hts⟩
  rw [tokenize_eq, scan, String.toList_ofList, Scanner.start, hfeed]
  rfl

/-- Two words, a string and a number, with each sort of trivia. -/
def printedWords : List Printed := [
  ⟨[], .forWord, ['f', 'o', 'r']⟩,
  ⟨['/', '*', '*', '/'], .identifier, ['f', 'o', 'r', 'e']⟩,
  ⟨['\n', ' '], .string, ['\'', '"', '\'']⟩,
  ⟨['/', '/', '*', '\n'], .number, ['0', '7']⟩]

theorem tokenize_printText_words :
    ∃ ts, tokenize (String.ofList (printText printedWords ['/', '/', 'x'])) = .ok ts ∧
      ts.map (fun t => (t.kind, t.lexeme)) =
        [(.forWord, "for"), (.identifier, "fore"), (.string, "'\"'"), (.number, "07")] := by
  have hblock : BlockComment ['/', '*', '*', '/'] := blockComment_iff.2 ⟨[], rfl, closesLate_nil⟩
  have hblank : Trivia ['\n', ' '] :=
    .blank isBlank_lineFeed (.blank (by decide +kernel) .nil)
  have hline : Trivia (['/', '/', '*'] ++ '\n' :: []) := .line (by decide : '\n' ∉ ['*']) .nil
  have htail : FinalTrivia ['/', '/', 'x'] := .inr ⟨[], ['x'], .nil, by decide, rfl⟩
  refine @tokenize_printText printedWords ['/', '/', 'x'] ?_ ?_ (by decide) htail
  · intro x hx
    simp only [printedWords, List.mem_cons, List.not_mem_nil, or_false] at hx
    rcases hx with rfl | rfl | rfl | rfl
    · exact ⟨⟨"for", by decide, rfl⟩, by simp⟩
    · exact ⟨⟨'f', ['o', 'r', 'e'], rfl, by decide +kernel, List.all_eq_true.1 (by decide +kernel)⟩,
        fun _ => unreserved_iff.2 (by decide +kernel)⟩
    · exact ⟨⟨.single, ['"'], by decide, rfl⟩, by simp⟩
    · exact ⟨⟨by decide, List.all_eq_true.1 (by decide)⟩, by simp⟩
  · intro x hx
    simp only [printedWords, List.mem_cons, List.not_mem_nil, or_false] at hx
    rcases hx with rfl | rfl | rfl | rfl
    · exact .nil
    · exact .block (w := []) hblock .nil
    · exact hblank
    · exact hline

/-! ## A text for given kinds -/

def Kind.sample : Kind → List Char
  | number => ['0']
  | string => ['"', '"']
  | identifier => ['a']
  | k => (k.spellings.head?.getD "").toList

theorem printable_sample (k : Kind) : k.Printable k.sample := by
  by_cases hk : k.spelled = true
  · have hsample : ∀ k ∈ Kind.all, k.spelled = true →
        ∃ v ∈ k.spellings, k.sample = v.toList := by decide
    refine ⟨(Kind.lexeme_iff_of_spelled hk).2 (hsample k (Kind.mem_all k) hk), ?_⟩
    rintro rfl
    cases hk
  · cases k with
    | number => exact ⟨⟨by decide, List.all_eq_true.1 (by decide)⟩, by simp⟩
    | string => exact ⟨⟨.double, [], by decide, rfl⟩, by simp⟩
    | identifier => exact printable_letter (by decide +kernel)
    | _ => exact absurd rfl hk

/-- Every list of kinds is that of the tokens of some source. -/
theorem exists_source_of_kinds (ks : List Kind) :
    ∃ source ts, tokenize source = .ok ts ∧ ts.map Token.kind = ks := by
  let xs : List Printed := ks.map fun k => ⟨[' '], k, k.sample⟩
  have hxs : ∀ x ∈ xs, x.gap = [' '] ∧ x.lexeme = x.kind.sample := by
    intro x hx
    obtain ⟨k, -, rfl⟩ := List.mem_map.1 hx
    exact ⟨rfl, rfl⟩
  obtain ⟨ts, hfeed, hts⟩ := @feed_printText xs []
    (fun x hx => (hxs x hx).2 ▸ printable_sample x.kind)
    (fun x hx => (hxs x hx).1 ▸ trivia_space)
    (fun x hx => by simp [(hxs x (List.mem_of_mem_tail hx)).1])
    (.inl .nil) (printText xs []) .start
  refine ⟨String.ofList (printText xs []), ts, ?_, ?_⟩
  · rw [tokenize_eq, scan, String.toList_ofList, Scanner.start, hfeed]
    rfl
  · have := congrArg (List.map Prod.fst) hts
    simpa [xs, Function.comp_def] using this

end Scriptlet
