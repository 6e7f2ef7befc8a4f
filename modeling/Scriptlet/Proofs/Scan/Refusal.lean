import Scriptlet.Proofs.Scan.Boundary

/-!
# Scriptlet.Proofs.Scan.Refusal

Texts of which no rule takes a piece:

* `Foreign c`   — `c` is of no use in any class of tokens, nor in blanks and comments.
* `Refused cs`  — the first character of `cs` is foreign, or it opens a string, an operator or a
                  comment that the text after it does not complete.

The lemmas on cuts say for each shape why it fails. A text that is refused has a first character
with which at most one rule opens, and this rule fails (`firstMatch_of_refused`); a text that is not
refused has a rule that does not fail (`refused_of_firstMatch`).
-/

namespace Scriptlet

/-! ## Why a cut fails -/

theorem cutRun_eq_none_iff {p : Char → Bool} {c : Char} {cs : List Char} :
    cutRun p (c :: cs) = none ↔ p c = false := by
  cases hc : p c <;> simp [cutRun, hc]

theorem cutLineComment_eq_none_iff {cs : List Char} :
    cutLineComment cs = none ↔ ¬ ['/', '/'] <+: cs := by
  unfold cutLineComment
  split
  · simp
  · rename_i hno
    refine iff_of_true rfl ?_
    rintro ⟨rest, rfl⟩
    exact hno rest rfl

theorem closeComment_eq_none_iff {reversed cs : List Char} :
    closeComment reversed cs = none ↔ ¬ ['*', '/'] <:+: cs := by
  fun_induction closeComment reversed cs with
  | case1 => simp
  | case2 reversed rest => simp [List.infix_cons_iff]
  | case3 reversed c rest hno ih =>
    have hpre : ¬ ['*', '/'] <+: c :: rest := by
      rintro ⟨after, heq⟩
      obtain ⟨rfl, rfl⟩ := List.cons.inj heq
      exact hno after rfl rfl
    rw [ih, List.infix_cons_iff, or_iff_right hpre]

theorem cutBlockComment_eq_none_iff {cs : List Char} :
    cutBlockComment cs = none ↔ ¬ (['/', '*'] <+: cs ∧ ['*', '/'] <:+: cs.drop 2) := by
  unfold cutBlockComment
  split
  · rw [closeComment_eq_none_iff]
    simp
  · rename_i hno
    refine iff_of_true rfl ?_
    rintro ⟨⟨rest, rfl⟩, -⟩
    exact hno rest rfl

theorem cutSpelling_eq_none_iff {ws : List String} {cs : List Char} :
    cutSpelling ws cs = none ↔ ∀ w ∈ ws, ¬ w.toList <+: cs := by
  have hfind : (ws.find? fun w => w.toList.isPrefixOf cs) = none ↔ ∀ w ∈ ws, ¬ w.toList <+: cs := by
    simp
  rw [← hfind]
  unfold cutSpelling
  split <;> simp_all

theorem cutQuoted_eq_none_iff {q : Quote} {cs : List Char} :
    cutQuoted (q.character :: cs) = none ↔ q.character ∉ cs := by
  constructor
  · intro h hmem
    obtain ⟨inner, after, rfl, hinner⟩ := List.eq_append_cons_of_mem hmem
    have hcut : cutQuoted (q.character :: inner ++ [q.character] ++ after) = _ :=
      cutQuoted_of_quoted hinner
    simp [h] at hcut
  · intro h
    rw [Option.eq_none_iff_forall_ne_some]
    rintro ⟨w, rest⟩ hcut
    obtain ⟨r, inner, -, rfl⟩ := cutQuoted_eq_some hcut
    obtain ⟨hq, rfl⟩ := List.cons.inj (cutQuoted_append hcut).1
    exact h (by simp [hq])

/-! ## Refused texts -/

/-- The characters that are the first half of an operator and nothing else, with the other half. -/
def halves : List (Char × Char) := [('&', '&'), ('|', '|'), ('!', '=')]

/-- The characters that are tokens, whatever follows. -/
def marks : List Char := [';', '\x7b', '\x7d', ',', '(', ')', '=']

structure Foreign (c : Char) : Prop where
  blank : isBlank c = false
  slash : c ≠ '/'
  half : ∀ x ∈ halves, c ≠ x.1
  mark : c ∉ marks
  digit : isDigit c = false
  quote : ∀ q : Quote, c ≠ q.character
  letter : alphabetic.contains c = false
  sign : c ≠ '_' ∧ c ≠ '$'

inductive Refused : List Char → Prop where
  | foreign {c : Char} {cs : List Char} : Foreign c → Refused (c :: cs)
  | string {q : Quote} {cs : List Char} : q.character ∉ cs → Refused (q.character :: cs)
  | operator {c d : Char} {cs : List Char} : (c, d) ∈ halves → cs.head? ≠ some d →
      Refused (c :: cs)
  | comment {cs : List Char} : ¬ ['/', '/'] <+: '/' :: cs →
      ¬ (['/', '*'] <+: '/' :: cs ∧ ['*', '/'] <:+: ('/' :: cs).drop 2) → Refused ('/' :: cs)

/-- Where no rule matches, none of the patterns takes anything. -/
theorem split?_eq_none_of_firstMatch {cs : List Char} (h : firstMatch cs = none) {p : Pattern}
    (hp : p ∈ rules.map Rule.pattern) : p.split? cs = none := by
  obtain ⟨r, hr, rfl⟩ := List.mem_map.1 hp
  exact Option.map_eq_none_iff.1 (List.findSome?_eq_none_iff.1 h r hr)

/-! ## Each refused text is refused -/

theorem opens_eq_false_of_foreign {c : Char} (h : Foreign c) {r : Rule} (hr : r ∈ rules) :
    r.pattern.opens c = false := by
  obtain ⟨hblank, hslash, hhalf, hmark, hdigit, hquote, hletter, hlow, hdollar⟩ := h
  have hstart : startsName c = false := by simp [startsName, hletter, hlow, hdollar]
  have hheads : (rules.all fun r => r.pattern.allWords
      (fun v => v.toList.head?.all fun d => d ∈ marks ∨ d ∈ halves.map Prod.fst)
      (fun v => v.toList.head?.all startsName)) = true := by decide +kernel
  have hr' := List.all_eq_true.1 hheads r hr
  cases hp : r.pattern with
  | blanks => exact hblank
  | lineComment => simpa [Pattern.opens] using hslash
  | blockComment => simpa [Pattern.opens] using hslash
  | spelled vs =>
    rw [hp] at hr'
    rw [Pattern.opens, List.any_eq_false]
    intro v hv hc
    have hd := List.all_eq_true.1 hr' v hv
    rw [beq_iff_eq.1 hc, Option.all_some, decide_eq_true_eq] at hd
    rcases hd with hd | hd
    · exact hmark hd
    · obtain ⟨x, hx, rfl⟩ := List.mem_map.1 hd
      exact hhalf x hx rfl
  | reserved vs =>
    rw [hp] at hr'
    rw [Pattern.opens, List.any_eq_false]
    intro v hv hc
    have hd := List.all_eq_true.1 hr' v hv
    rw [beq_iff_eq.1 hc, Option.all_some, hstart] at hd
    cases hd
  | digits => exact hdigit
  | quoted =>
    rw [Pattern.opens, Option.isSome_eq_false_iff, Option.isNone_iff_eq_none,
      Option.eq_none_iff_forall_ne_some]
    exact fun q hq => hquote q (Quote.ofCharacter?_eq_some_iff.1 hq)
  | name => exact hstart

theorem firstMatch_half {c d : Char} {cs : List Char} (h : (c, d) ∈ halves)
    (hd : cs.head? ≠ some d) : firstMatch (c :: cs) = none := by
  have hwords : ∀ v ∈ Kind.operator.spellings, ∀ x ∈ halves, v.toList.head? = some x.1 →
      v.toList = [x.1, x.2] := by decide
  have hc : candidates c = [{ pattern := .spelled Kind.operator.spellings,
                              action := .emit .operator }] := by
    simp only [halves, List.mem_cons, Prod.mk.injEq, List.not_mem_nil, or_false] at h
    rcases h with ⟨rfl, -⟩ | ⟨rfl, -⟩ | ⟨rfl, -⟩ <;> rfl
  have hcut : cutSpelling Kind.operator.spellings (c :: cs) = none := by
    rw [cutSpelling_eq_none_iff]
    intro v hv hpre
    obtain ⟨e, t, ht⟩ : ∃ e t, v.toList = e :: t := by
      have hne : ∀ v ∈ Kind.operator.spellings, v.toList ≠ [] := by decide
      exact List.exists_cons_of_ne_nil (hne v hv)
    rw [ht, List.cons_prefix_cons] at hpre
    obtain ⟨rfl, hpre⟩ := hpre
    have hpair := hwords v hv _ h (by rw [ht]; rfl)
    rw [ht] at hpair
    obtain ⟨-, rfl⟩ := List.cons.inj hpair
    obtain ⟨after, rfl⟩ := hpre
    exact hd rfl
  rw [firstMatch_cons, hc, List.findSome?_cons, Rule.match?, Pattern.split?, hcut]
  rfl

theorem firstMatch_of_refused {cs : List Char} (h : Refused cs) : firstMatch cs = none := by
  cases h with
  | foreign hc =>
    refine firstMatch_eq_none (List.all_eq_true.2 fun r hr => ?_)
    rw [opens_eq_false_of_foreign hc hr]
    rfl
  | @string q cs hq =>
    have hc : candidates q.character = [{ pattern := .quoted, action := .emit .string }] := by
      cases q <;> rfl
    rw [firstMatch_cons, hc, List.findSome?_cons, Rule.match?, Pattern.split?,
      cutQuoted_eq_none_iff.2 hq]
    rfl
  | operator h hd => exact firstMatch_half h hd
  | comment hline hblock =>
    rw [firstMatch_slash, cutLineComment_eq_none_iff.2 hline, cutBlockComment_eq_none_iff.2 hblock]
    rfl

/-! ## No other text is refused -/

theorem not_mem_marks_of_firstMatch {c : Char} {cs : List Char} (h : firstMatch (c :: cs) = none) :
    c ∉ marks := by
  intro hc
  have hspelled : ∀ c ∈ marks, .spelled [String.ofList [c]] ∈ rules.map Rule.pattern := by
    simp [marks, rules]
  have hcut := split?_eq_none_of_firstMatch h (hspelled c hc)
  refine cutSpelling_eq_none_iff.1 hcut _ List.mem_cons_self ?_
  simp

theorem head?_ne_of_firstMatch {c d : Char} {cs : List Char} (h : firstMatch (c :: cs) = none)
    (hx : (c, d) ∈ halves) : cs.head? ≠ some d := by
  intro hd
  obtain ⟨rest, rfl⟩ := List.head?_eq_some_iff.1 hd
  have hcut := split?_eq_none_of_firstMatch (p := .spelled Kind.operator.spellings) h (by decide)
  have hword : ∀ x ∈ halves, String.ofList [x.1, x.2] ∈ Kind.operator.spellings := by decide
  refine cutSpelling_eq_none_iff.1 hcut _ (hword _ hx) ?_
  simp

theorem refused_of_firstMatch {c : Char} {cs : List Char} (h : firstMatch (c :: cs) = none) :
    Refused (c :: cs) := by
  have hcut := fun p hp => split?_eq_none_of_firstMatch h (p := p) hp
  by_cases hquote : ∃ q : Quote, c = q.character
  · obtain ⟨q, rfl⟩ := hquote
    exact .string (cutQuoted_eq_none_iff.1 (hcut .quoted (by decide)))
  by_cases hslash : c = '/'
  · subst hslash
    exact .comment (cutLineComment_eq_none_iff.1 (hcut .lineComment (by decide)))
      (cutBlockComment_eq_none_iff.1 (hcut .blockComment (by decide)))
  by_cases hhalf : ∃ x ∈ halves, c = x.1
  · obtain ⟨⟨c, d⟩, hx, rfl⟩ := hhalf
    exact .operator hx (head?_ne_of_firstMatch h hx)
  have hstart : startsName c = false := by
    have hname := hcut .name (by decide)
    simpa [Pattern.split?, cutName] using hname
  simp only [startsName, Bool.or_eq_false_iff, beq_eq_false_iff_ne] at hstart
  exact .foreign
    { blank := isBlank_of_firstMatch_eq_none h
      slash := hslash
      half := fun x hx hc => hhalf ⟨x, hx, hc⟩
      mark := not_mem_marks_of_firstMatch h
      digit := cutRun_eq_none_iff.1 (hcut .digits (by decide))
      quote := fun q hc => hquote ⟨q, hc⟩
      letter := hstart.1.1
      sign := ⟨hstart.1.2, hstart.2⟩ }

/-- Exactly the refused texts have no match. Of every other text that is not empty a piece is
taken, which ends between two characters and has at least one. -/
theorem refused_or_matched (c : Char) (cs : List Char) :
    (firstMatch (c :: cs) = none ↔ Refused (c :: cs)) ∧
      (Refused (c :: cs) ∨
        ∃ m, firstMatch (c :: cs) = some m ∧ m.piece ++ m.rest = c :: cs ∧
          0 < byteLength m.piece ∧ byteLength m.piece ≤ byteLength (c :: cs)) := by
  refine ⟨⟨refused_of_firstMatch, firstMatch_of_refused⟩, ?_⟩
  cases h : firstMatch (c :: cs) with
  | none => exact .inl (refused_of_firstMatch h)
  | some m =>
    obtain ⟨happ, hne⟩ := firstMatch_append h
    have hpos : byteLength m.piece ≠ 0 := fun hzero => hne (byteLength_eq_zero.1 hzero)
    refine .inr ⟨m, rfl, happ, Nat.pos_of_ne_zero hpos, ?_⟩
    rw [← happ, byteLength_append]
    exact Nat.le_add_right _ _

/-- The star that opens a comment does not close it. -/
example : firstMatch ['/', '*', '/'] = none := by decide +kernel

end Scriptlet
