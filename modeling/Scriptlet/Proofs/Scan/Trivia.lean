import Scriptlet.Proofs.Scan.Opening

/-!
# Scriptlet.Proofs.Scan.Trivia

Text between tokens:

* `BlockComment w`    — `w` is one comment in slashes and stars, closed where it first can be.
* `Skipped w rest`    — `w` is what one rule passes over when `rest` comes after it.
* `Trivia w`          — `w` is made of blanks, comments up to a line feed and closed comments.
* `FinalTrivia w`     — the same at the end of a text, where a line comment needs no line feed.

`skipped_of_firstMatch` says what a rule that skips has taken. `nextToken_trivia` says that trivia
change nothing but the place of what follows, whatever that is: a run of blanks that goes on in
the text after it is skipped as a whole, with the same result.
-/

namespace Scriptlet

def BlockComment (w : List Char) : Prop :=
  (∃ body, w = '/' :: '*' :: body ++ ['*', '/']) ∧
    ∀ before after, w = before ++ '*' :: '/' :: after → 2 ≤ before.length → after = []

inductive Skipped : List Char → List Char → Prop where
  | blanks {w rest : List Char} : w ≠ [] → (∀ c ∈ w, isBlank c = true) →
      (∀ c ∈ rest.head?, isBlank c = false) → Skipped w rest
  | line {body rest : List Char} : '\n' ∉ body → (∀ c ∈ rest.head?, c = '\n') →
      Skipped ('/' :: '/' :: body) rest
  | block {w rest : List Char} : BlockComment w → Skipped w rest

inductive Trivia : List Char → Prop where
  | nil : Trivia []
  | blank {c : Char} {w : List Char} : isBlank c = true → Trivia w → Trivia (c :: w)
  | line {body w : List Char} : '\n' ∉ body → Trivia w → Trivia ('/' :: '/' :: body ++ '\n' :: w)
  | block {b w : List Char} : BlockComment b → Trivia w → Trivia (b ++ w)

def FinalTrivia (w : List Char) : Prop :=
  Trivia w ∨ ∃ v body, Trivia v ∧ '\n' ∉ body ∧ w = v ++ '/' :: '/' :: body

theorem trivia_space : Trivia [' '] := .blank (by decide +kernel) .nil

theorem Trivia.blanks {w rest : List Char} (hw : ∀ c ∈ w, isBlank c = true) (h : Trivia rest) :
    Trivia (w ++ rest) := by
  induction w with
  | nil => exact h
  | cons c w ih =>
    have hc : isBlank c = true := hw c List.mem_cons_self
    exact .blank hc (ih fun d hd => hw d (List.mem_cons_of_mem c hd))

/-! ## Runs of a class -/

theorem head?_dropWhile_eq_false {p : Char → Bool} {cs : List Char} {c : Char}
    (h : c ∈ (cs.dropWhile p).head?) : p c = false := by
  have := List.head?_dropWhile_not p cs
  rw [Option.mem_def] at h
  rw [h] at this
  simpa using this

theorem mem_takeWhile_eq_true {p : Char → Bool} {cs : List Char} {c : Char}
    (h : c ∈ cs.takeWhile p) : p c = true := by
  induction cs with
  | nil => simp at h
  | cons d cs ih =>
    rw [List.takeWhile_cons] at h
    split at h
    · rename_i hd
      rcases List.mem_cons.1 h with rfl | h
      · exact hd
      · exact ih h
    · simp at h

/-- A run ends where the text after it begins, if that does not go on with it. -/
theorem span_append {p : Char → Bool} {w rest : List Char} (hw : ∀ c ∈ w, p c = true)
    (hr : ∀ c ∈ rest.head?, p c = false) :
    (w ++ rest).takeWhile p = w ∧ (w ++ rest).dropWhile p = rest := by
  have hrest : rest.takeWhile p = [] ∧ rest.dropWhile p = rest := by
    cases rest with
    | nil => simp
    | cons c cs =>
      have := hr c rfl
      simp [this]
  rw [List.takeWhile_append_of_pos hw, List.dropWhile_append_of_pos hw, hrest.1, hrest.2]
  simp

theorem cutRun_eq_some {p : Char → Bool} {cs w rest : List Char}
    (h : cutRun p cs = some (w, rest)) :
    w ≠ [] ∧ (∀ c ∈ w, p c = true) ∧ ∀ c ∈ rest.head?, p c = false := by
  have hne := (cutRun_append h).2
  simp only [cutRun] at h
  split at h
  · cases h
  · cases h
    exact ⟨hne, fun _ => mem_takeWhile_eq_true, fun _ => head?_dropWhile_eq_false⟩

theorem cutRun_of_run {p : Char → Bool} {w rest : List Char} (hne : w ≠ [])
    (hw : ∀ c ∈ w, p c = true) (hr : ∀ c ∈ rest.head?, p c = false) :
    cutRun p (w ++ rest) = some (w, rest) := by
  obtain ⟨ht, hd⟩ := span_append hw hr
  simp [cutRun, ht, hd, hne]

/-! ## Comments -/

/-- A line comment ends at the first line feed. -/
theorem cutLineComment_of_line {body rest : List Char} (hb : '\n' ∉ body)
    (hr : ∀ c ∈ rest.head?, c = '\n') :
    cutLineComment ('/' :: '/' :: body ++ rest) = some ('/' :: '/' :: body, rest) := by
  have hbody : ∀ c ∈ body, (decide (c ≠ '\n')) = true := by
    intro c hc
    simpa using fun he : c = '\n' => hb (he ▸ hc)
  have hrest : ∀ c ∈ rest.head?, (decide (c ≠ '\n')) = false := by
    intro c hc
    simpa using hr c hc
  obtain ⟨ht, hd⟩ := span_append hbody hrest
  simp only [List.cons_append, cutLineComment, ht, hd]

theorem cutLineComment_eq_some {cs w rest : List Char}
    (h : cutLineComment cs = some (w, rest)) : Skipped w rest := by
  unfold cutLineComment at h
  split at h
  · cases h
    refine .line (fun hm => ?_) (fun c hc => ?_)
    · simpa using mem_takeWhile_eq_true hm
    · simpa using head?_dropWhile_eq_false hc
  · cases h

/-- The text that is searched for the end of a comment has none before its own. -/
def ClosesLate (body : List Char) : Prop :=
  ∀ before after, body ++ ['*', '/'] = before ++ '*' :: '/' :: after → after = []

theorem closesLate_nil : ClosesLate [] := by
  intro before after h
  cases before with
  | nil => simpa using h.symm
  | cons b bs =>
    have := congrArg List.length h
    simp only [List.nil_append, List.length_cons, List.length_nil, List.length_append] at this
    omega

theorem ClosesLate.tail {c : Char} {body : List Char} (h : ClosesLate (c :: body)) :
    ClosesLate body := by
  intro before after he
  exact h (c :: before) after (by simp [he])

/-- A character in front of a comment's end closes nothing unless it is a star before a slash. -/
theorem ClosesLate.cons {c : Char} {body : List Char} (h : ClosesLate body)
    (hc : ∀ rest, ¬ (c = '*' ∧ body ++ ['*', '/'] = '/' :: rest)) : ClosesLate (c :: body) := by
  intro before after he
  cases before with
  | nil =>
    obtain ⟨rfl, ht⟩ : c = '*' ∧ body ++ ['*', '/'] = '/' :: after := by simpa using he
    exact absurd ⟨rfl, ht⟩ (hc after)
  | cons b bs => exact h bs after (by simpa using (List.cons.inj he).2)

theorem closeComment_eq_some {reversed cs w rest : List Char}
    (h : closeComment reversed cs = some (w, rest)) :
    ∃ body, w = reversed.reverse ++ body ++ ['*', '/'] ∧ cs = body ++ ['*', '/'] ++ rest ∧
      ClosesLate body := by
  fun_induction closeComment reversed cs with
  | case1 => cases h
  | case2 reversed tail =>
    cases h
    exact ⟨[], by simp, by simp, closesLate_nil⟩
  | case3 reversed c tail hc ih =>
    obtain ⟨body, rfl, rfl, hlate⟩ := ih h
    refine ⟨c :: body, by simp, by simp, hlate.cons ?_⟩
    rintro r ⟨rfl, hr⟩
    exact hc (r ++ rest) rfl (by rw [hr]; rfl)

theorem closeComment_of_closesLate {body : List Char} (h : ClosesLate body)
    (reversed rest : List Char) :
    closeComment reversed (body ++ ['*', '/'] ++ rest) =
      some (reversed.reverse ++ body ++ ['*', '/'], rest) := by
  induction body generalizing reversed with
  | nil => simp [closeComment]
  | cons c body ih =>
    have hc : ∀ r, c = '*' → body ++ ['*', '/'] ++ rest ≠ '/' :: r := by
      rintro r rfl he
      cases body with
      | nil => simp at he
      | cons d body =>
        obtain ⟨rfl, -⟩ : d = '/' ∧ _ := by simpa using he
        simpa using h [] (body ++ ['*', '/']) rfl
    rw [List.cons_append, List.cons_append, closeComment]
    · rw [ih h.tail]
      simp
    · intro r hcr hr
      exact hc r hcr hr

theorem blockComment_iff {w : List Char} :
    BlockComment w ↔ ∃ body, w = '/' :: '*' :: body ++ ['*', '/'] ∧ ClosesLate body := by
  constructor
  · rintro ⟨⟨body, rfl⟩, hlast⟩
    refine ⟨body, rfl, fun before after he => ?_⟩
    exact hlast ('/' :: '*' :: before) after (by simp [he]) (by simp)
  · rintro ⟨body, rfl, hlate⟩
    refine ⟨⟨body, rfl⟩, fun before after he hlen => ?_⟩
    match before, hlen with
    | a :: b :: before, _ =>
      have ht : body ++ ['*', '/'] = before ++ '*' :: '/' :: after := by
        simpa using (List.cons.inj (List.cons.inj he).2).2
      exact hlate before after ht

theorem cutBlockComment_eq_some {cs w rest : List Char}
    (h : cutBlockComment cs = some (w, rest)) : BlockComment w := by
  unfold cutBlockComment at h
  split at h
  · obtain ⟨body, rfl, -, hlate⟩ := closeComment_eq_some h
    exact blockComment_iff.2 ⟨body, by simp, hlate⟩
  · cases h

theorem cutBlockComment_of_block {w : List Char} (h : BlockComment w) (rest : List Char) :
    cutBlockComment (w ++ rest) = some (w, rest) := by
  obtain ⟨body, rfl, hlate⟩ := blockComment_iff.1 h
  have := closeComment_of_closesLate hlate ['*', '/'] rest
  simpa [cutBlockComment] using this

/-! ## What a rule that skips has taken -/

theorem skipped_of_firstMatch {cs : List Char} {m : Match} (h : firstMatch cs = some m)
    (hk : m.action = .skip) : Skipped m.piece m.rest := by
  obtain ⟨r, hr, hm⟩ := mem_of_firstMatch h
  obtain ⟨⟨piece, rest⟩, hs, rfl⟩ := Option.map_eq_some_iff.1 hm
  have hskip : ∀ r ∈ rules, r.action = .skip →
      r.pattern = .blanks ∨ r.pattern = .lineComment ∨ r.pattern = .blockComment := by
    decide
  rcases hskip r hr hk with hp | hp | hp
  · rw [hp] at hs
    obtain ⟨hne, hw, hrest⟩ := cutRun_eq_some hs
    exact .blanks hne hw hrest
  · rw [hp] at hs
    exact cutLineComment_eq_some hs
  · rw [hp] at hs
    exact .block (cutBlockComment_eq_some hs)

/-! ## Skipping trivia -/

theorem isBlank_lineFeed : isBlank '\n' = true := by decide +kernel

theorem firstMatch_blank {c : Char} (hc : isBlank c = true) (cs : List Char) :
    firstMatch (c :: cs) = some ⟨c :: cs.takeWhile isBlank, cs.dropWhile isBlank, .skip⟩ := by
  simp [firstMatch, rules, Rule.match?, Pattern.split?, cutRun, hc]

/-- Blanks are never refused. -/
theorem isBlank_of_firstMatch_eq_none {c : Char} {cs : List Char}
    (h : firstMatch (c :: cs) = none) : isBlank c = false := by
  cases hb : isBlank c with
  | false => rfl
  | true =>
    rw [firstMatch_blank hb] at h
    cases h

/-- A slash begins comments and nothing else. -/
theorem firstMatch_slash (cs : List Char) :
    firstMatch ('/' :: cs) =
      ((cutLineComment ('/' :: cs)).or (cutBlockComment ('/' :: cs))).map
        fun x => ⟨x.1, x.2, .skip⟩ := by
  have hc : candidates '/' = [{ pattern := .lineComment, action := .skip },
      { pattern := .blockComment, action := .skip }] := rfl
  rw [firstMatch_cons, hc]
  simp only [List.findSome?_cons, List.findSome?_nil, Rule.match?, Pattern.split?]
  cases cutLineComment ('/' :: cs) <;> cases cutBlockComment ('/' :: cs) <;> rfl

theorem firstMatch_lineComment {body rest : List Char} (hb : '\n' ∉ body)
    (hr : ∀ c ∈ rest.head?, c = '\n') :
    firstMatch ('/' :: '/' :: body ++ rest) = some ⟨'/' :: '/' :: body, rest, .skip⟩ := by
  have hcut := cutLineComment_of_line hb hr
  rw [List.cons_append] at hcut ⊢
  rw [firstMatch_slash, hcut]
  rfl

theorem firstMatch_blockComment {w : List Char} (h : BlockComment w) (rest : List Char) :
    firstMatch (w ++ rest) = some ⟨w, rest, .skip⟩ := by
  have hcut := cutBlockComment_of_block h rest
  obtain ⟨⟨body, rfl⟩, -⟩ := h
  have hline : cutLineComment ('/' :: '*' :: body ++ ['*', '/'] ++ rest) = none := by
    simp [cutLineComment]
  rw [List.cons_append, List.cons_append] at hcut hline ⊢
  rw [firstMatch_slash, hline, hcut]
  rfl

section Skip

variable {source cs : List Char} {p : Position}

theorem nextToken_of_skip {piece rest : List Char}
    (h : firstMatch cs = some ⟨piece, rest, .skip⟩) :
    (Scanner.mk source cs p).nextToken = (Scanner.mk source rest (p.advance piece)).nextToken :=
  Scanner.nextToken_skip (s := ⟨source, cs, p⟩) h rfl

/-- A blank may be skipped alone: if more blanks follow, the rule takes them either way. -/
theorem nextToken_blank {c : Char} (hc : isBlank c = true) :
    (Scanner.mk source (c :: cs) p).nextToken = (Scanner.mk source cs (p.step c)).nextToken := by
  rw [nextToken_of_skip (firstMatch_blank hc cs)]
  cases cs with
  | nil => rfl
  | cons d ds =>
    by_cases hd : isBlank d = true
    · rw [nextToken_of_skip (firstMatch_blank hd ds)]
      simp [hd]
    · simp [hd]

theorem nextToken_lineComment {body : List Char} (hb : '\n' ∉ body)
    (hr : ∀ c ∈ cs.head?, c = '\n') :
    (Scanner.mk source ('/' :: '/' :: body ++ cs) p).nextToken =
      (Scanner.mk source cs (p.advance ('/' :: '/' :: body))).nextToken :=
  nextToken_of_skip (firstMatch_lineComment hb hr)

theorem nextToken_blockComment {w : List Char} (h : BlockComment w) :
    (Scanner.mk source (w ++ cs) p).nextToken =
      (Scanner.mk source cs (p.advance w)).nextToken :=
  nextToken_of_skip (firstMatch_blockComment h cs)

theorem nextToken_trivia {w : List Char} (h : Trivia w) :
    (Scanner.mk source (w ++ cs) p).nextToken =
      (Scanner.mk source cs (p.advance w)).nextToken := by
  induction h generalizing p with
  | nil => rfl
  | blank hc _ ih =>
    rw [List.cons_append, nextToken_blank hc, ih]
    rfl
  | @line body w hb _ ih =>
    have hfeed : ∀ c ∈ ('\n' :: w ++ cs).head?, c = '\n' := by simp
    rw [List.append_assoc, nextToken_lineComment hb hfeed, List.cons_append,
      nextToken_blank isBlank_lineFeed, ih, Position.advance_append]
    rfl
  | @block b w hb _ ih =>
    rw [List.append_assoc, nextToken_blockComment hb, ih, Position.advance_append]

/-- After the last token nothing comes. -/
theorem nextToken_finalTrivia {w : List Char} (h : FinalTrivia w) :
    (Scanner.mk source w p).nextToken =
      (.finish, Scanner.mk source [] (p.advance w)) := by
  rcases h with h | ⟨v, body, hv, hb, rfl⟩
  · have hskip : (Scanner.mk source (w ++ []) p).nextToken = _ := nextToken_trivia h
    rw [List.append_nil] at hskip
    rw [hskip]
    exact Scanner.nextToken_finish rfl
  · have hend : ∀ c ∈ ([] : List Char).head?, c = '\n' := by simp
    have hskip : (Scanner.mk source ('/' :: '/' :: body ++ []) (p.advance v)).nextToken = _ :=
      nextToken_lineComment hb hend
    rw [List.append_nil] at hskip
    rw [nextToken_trivia hv, hskip, Position.advance_append]
    exact Scanner.nextToken_finish rfl

end Skip

end Scriptlet
