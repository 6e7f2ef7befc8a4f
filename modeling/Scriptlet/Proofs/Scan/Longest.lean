import Scriptlet.Proofs.Scan.Reserved

/-!
# Scriptlet.Proofs.Scan.Longest

The order of the rules and the longest match:

* `IsLongest cs m`       — `m` is the longest of all matches of `cs`, and of those that are as long
                           it is the one of the earliest rule.
* `WordInName cs`        — `cs` begins with a reserved word before a character that goes on with a
                           name and does not make the word a longer one.
* `matching cs`          — the rules that match at the start of `cs`.
* `Pattern.apart p q`    — `p` and `q` never take a piece of the same text.
* `Pattern.shadows p q`  — what `p` takes is longer than what `q` takes, or `p` is one for words and
                           `q` the one for names.

Patterns are apart if they begin with characters of different classes (`lead`), or if none of their
spellings begins another one. The table is such that of two patterns that are not apart the earlier
one shadows the later one (`rules_ordered`). No pattern is shadowed and shadows another one, so
there are never three matches.
-/

namespace Scriptlet

def IsLongest (cs : List Char) (m : Match) : Prop :=
  ∃ before r after, rules = before ++ r :: after ∧ r.match? cs = some m ∧
    (∀ s ∈ before, ∀ n, s.match? cs = some n → byteLength n.piece < byteLength m.piece) ∧
    ∀ s ∈ after, ∀ n, s.match? cs = some n → byteLength n.piece ≤ byteLength m.piece

def WordInName (cs : List Char) : Prop :=
  ∃ v ∈ reservedWords, ∃ c rest,
    cs = v.toList ++ c :: rest ∧ continuesName c = true ∧ extendsWord c = false

theorem IsLongest.le {cs : List Char} {m n : Match} (h : IsLongest cs m) {s : Rule}
    (hs : s ∈ rules) (hn : s.match? cs = some n) : byteLength n.piece ≤ byteLength m.piece := by
  obtain ⟨before, r, after, hrules, hm, hbefore, hafter⟩ := h
  rw [hrules, List.mem_append, List.mem_cons] at hs
  rcases hs with hs | rfl | hs
  · exact Nat.le_of_lt (hbefore s hs n hn)
  · exact Nat.le_of_eq (by rw [Option.some.inj (hn.symm.trans hm)])
  · exact hafter s hs n hn

/-- The rules that match at the start of a text, in order. -/
def matching (cs : List Char) : List Rule := rules.filter fun r => (r.match? cs).isSome

/-! ## First characters -/

inductive Lead where
  | blank
  | slash
  | digit
  | quote
  | letter
  | other
  deriving DecidableEq, Repr

def lead (c : Char) : Lead :=
  if isBlank c then .blank
  else if c = '/' then .slash
  else if isDigit c then .digit
  else if (Quote.ofCharacter? c).isSome then .quote
  else if startsName c then .letter
  else .other

namespace Pattern

def lead : Pattern → Lead
  | blanks => .blank
  | lineComment | blockComment => .slash
  | digits => .digit
  | quoted => .quote
  | reserved _ | name => .letter
  | spelled _ => .other

/-- Whether the spellings of a pattern begin as the pattern says. -/
def led : Pattern → Bool :=
  allWords (fun v => v.toList.head?.all fun c => Scriptlet.lead c = .other)
    (fun v => v.toList.head?.all fun c => Scriptlet.lead c = .letter)

end Pattern

theorem lead_of_startsName {c : Char} (h : startsName c = true) : lead c = .letter := by
  simp [lead, isBlank_of_startsName h, slash_of_startsName h, isDigit_of_startsName h,
    ofCharacter?_of_startsName h, h]

theorem lead_of_isDigit {c : Char} (h : isDigit c = true) : lead c = .digit := by
  have hsep := separates_of_isDigit h
  simp only [separates, Bool.or_eq_false_iff, beq_eq_false_iff_ne] at hsep
  simp [lead, hsep, h]

theorem lead_quote (q : Quote) : lead q.character = .quote := by
  cases q <;> decide +kernel

theorem Pattern.lead_eq {p : Pattern} (hp : p.led = true) {c : Char} (h : p.opens c = true) :
    Scriptlet.lead c = p.lead := by
  have spelling : ∀ {vs : List String} {l : Lead},
      (vs.all fun v => v.toList.head?.all fun c => Scriptlet.lead c = l) = true →
      (vs.any fun v => v.toList.head? == some c) = true → Scriptlet.lead c = l := by
    intro vs l hvs hany
    obtain ⟨v, hv, hc⟩ := List.any_eq_true.1 hany
    have hl := List.all_eq_true.1 hvs v hv
    rw [beq_iff_eq.1 hc] at hl
    simpa using hl
  cases p with
  | blanks =>
    have hblank : isBlank c = true := h
    simp [Scriptlet.lead, hblank, Pattern.lead]
  | lineComment =>
    obtain rfl : c = '/' := by simpa [Pattern.opens] using h
    decide +kernel
  | blockComment =>
    obtain rfl : c = '/' := by simpa [Pattern.opens] using h
    decide +kernel
  | spelled vs => exact spelling hp h
  | reserved vs => exact spelling hp h
  | digits => exact lead_of_isDigit h
  | quoted =>
    obtain ⟨q, hq⟩ := Option.isSome_iff_exists.1 h
    rw [Quote.ofCharacter?_eq_some_iff.1 hq]
    exact lead_quote q
  | name => exact lead_of_startsName h

/-! ## Two patterns on one text -/

/-- Whether no spelling of one list begins one of the other, or the other way round. -/
def noneBegins (vs ws : List String) : Bool :=
  vs.all fun v => ws.all fun w => !v.toList.isPrefixOf w.toList && !w.toList.isPrefixOf v.toList

namespace Pattern

def apart : Pattern → Pattern → Bool
  | spelled vs, spelled ws | reserved vs, reserved ws => noneBegins vs ws
  | lineComment, blockComment => true
  | p, q => p.lead != q.lead

def shadows : Pattern → Pattern → Bool
  | spelled vs, spelled ws =>
    (vs.all fun v => byteLength v.toList = 2) && ws.all fun w => byteLength w.toList = 1
  | reserved _, name => true
  | _, _ => false

end Pattern

theorem noneBegins_eq_false {vs ws : List String} {cs : List Char} {x y : List Char × List Char}
    (hx : cutSpelling vs cs = some x) (hy : cutSpelling ws cs = some y) :
    noneBegins vs ws = false := by
  obtain ⟨hcs, v, hv, hpiece⟩ := cutSpelling_append hx
  obtain ⟨hcs', w, hw, hpiece'⟩ := cutSpelling_append hy
  have hvcs : v.toList <+: cs := ⟨x.2, by rw [← hpiece, hcs]⟩
  have hwcs : w.toList <+: cs := ⟨y.2, by rw [← hpiece', hcs']⟩
  rw [← Bool.not_eq_true]
  intro hnone
  have hapart := List.all_eq_true.1 (List.all_eq_true.1 hnone v hv) w hw
  rcases List.prefix_or_prefix_of_prefix hvcs hwcs with h | h
  · simp [List.isPrefixOf_iff_prefix.2 h] at hapart
  · simp [List.isPrefixOf_iff_prefix.2 h] at hapart

namespace Pattern

variable {p q : Pattern} {cs : List Char} {x y : List Char × List Char}

/-- A piece begins with a character that its pattern opens with. -/
theorem exists_opens (hp : p.proper = true) (h : p.split? cs = some x) :
    ∃ c tail, cs = c :: tail ∧ p.opens c = true := by
  cases cs with
  | nil =>
    have happ := split?_append h
    exact absurd (List.append_eq_nil_iff.1 happ).1 (split?_ne_nil hp h)
  | cons c tail =>
    refine ⟨c, tail, rfl, ?_⟩
    by_contra hopens
    cases h.symm.trans (split?_eq_none hp (by simpa using hopens))

theorem lead_eq_of_split? (hp : p.proper = true) (hq : q.proper = true) (hpl : p.led = true)
    (hql : q.led = true) (hx : p.split? cs = some x) (hy : q.split? cs = some y) :
    p.lead = q.lead := by
  obtain ⟨c, tail, rfl, hc⟩ := exists_opens hp hx
  obtain ⟨_, _, heq, hd⟩ := exists_opens hq hy
  cases heq
  exact (lead_eq hpl hc).symm.trans (lead_eq hql hd)

theorem apart_eq_false (hp : p.proper = true) (hq : q.proper = true) (hpl : p.led = true)
    (hql : q.led = true) (hx : p.split? cs = some x) (hy : q.split? cs = some y) :
    p.apart q = false := by
  have hlead := lead_eq_of_split? hp hq hpl hql hx hy
  unfold apart
  split
  · exact noneBegins_eq_false hx hy
  · exact noneBegins_eq_false (cutReserved_eq_some hx).1 (cutReserved_eq_some hy).1
  · simp only [split?] at hx hy
    unfold cutLineComment at hx
    unfold cutBlockComment at hy
    split at hx
    · cases hy
    · cases hx
  · simpa using hlead

end Pattern

/-- Whether a rule may stand before another one in the table. -/
def Rule.precedes (r s : Rule) : Bool := r.pattern.apart s.pattern || r.pattern.shadows s.pattern

theorem rules_led : rules.all (fun r => r.pattern.led) = true := by decide +kernel

theorem rules_ordered : rules.Pairwise fun r s => r.precedes s = true := by decide +kernel

/-- Of two rules that match the same text, the earlier one shadows the later one. -/
theorem shadows_of_match {r s : Rule} (hr : r ∈ rules) (hs : s ∈ rules)
    (hrs : r.precedes s = true) {cs : List Char} {m n : Match} (hm : r.match? cs = some m)
    (hn : s.match? cs = some n) : r.pattern.shadows s.pattern = true := by
  obtain ⟨x, hx, -⟩ := Option.map_eq_some_iff.1 hm
  obtain ⟨y, hy, -⟩ := Option.map_eq_some_iff.1 hn
  have hapart := Pattern.apart_eq_false r.proper s.proper (List.all_eq_true.1 rules_led r hr)
    (List.all_eq_true.1 rules_led s hs) hx hy
  rwa [Rule.precedes, hapart, Bool.false_or] at hrs

/-! ## At most two matches -/

namespace Pattern

variable {p q t : Pattern} {cs : List Char} {x y : List Char × List Char}

/-- What is shadowed is shorter, unless it is a name in which a word was found. -/
theorem shadows_cases (h : p.shadows q = true) (hx : p.split? cs = some x)
    (hy : q.split? cs = some y) :
    byteLength x.1 = 2 ∧ byteLength y.1 = 1 ∨ (∃ vs, p = reserved vs) ∧ q = name := by
  unfold shadows at h
  split at h
  · left
    obtain ⟨-, v, hv, hpiece⟩ := cutSpelling_append hx
    obtain ⟨-, w, hw, hpiece'⟩ := cutSpelling_append hy
    rw [Bool.and_eq_true] at h
    rw [hpiece, hpiece']
    exact ⟨by simpa using List.all_eq_true.1 h.1 v hv, by simpa using List.all_eq_true.1 h.2 w hw⟩
  · exact .inr ⟨⟨_, rfl⟩, rfl⟩
  · cases h

/-- What is shadowed shadows nothing. -/
theorem shadows_eq_false (h : p.shadows q = true) (hy : q.split? cs = some y) :
    q.shadows t = false := by
  rw [← Bool.not_eq_true]
  intro hqt
  unfold shadows at h
  split at h
  · unfold shadows at hqt
    split at hqt
    · rename_i heq
      cases heq
      obtain ⟨-, w, hw, -⟩ := cutSpelling_append hy
      rw [Bool.and_eq_true] at h hqt
      have hone : byteLength w.toList = 1 := by simpa using List.all_eq_true.1 h.2 w hw
      have htwo : byteLength w.toList = 2 := by simpa using List.all_eq_true.1 hqt.1 w hw
      cases hone.symm.trans htwo
    · rename_i heq
      cases heq
    · cases hqt
  · cases hqt
  · cases h

end Pattern

theorem exists_of_mem_matching {cs : List Char} {r : Rule} (h : r ∈ matching cs) :
    r ∈ rules ∧ ∃ m, r.match? cs = some m := by
  obtain ⟨hr, hm⟩ := List.mem_filter.1 h
  exact ⟨hr, Option.isSome_iff_exists.1 hm⟩

theorem matching_shadows (cs : List Char) :
    (matching cs).Pairwise fun r s => r.pattern.shadows s.pattern = true := by
  refine (rules_ordered.filter _).imp_of_mem ?_
  intro r s hr hs hrs
  obtain ⟨hr, m, hm⟩ := exists_of_mem_matching hr
  obtain ⟨hs, n, hn⟩ := exists_of_mem_matching hs
  exact shadows_of_match hr hs hrs hm hn

/-- Of three rules that match, the second one would be shadowed and shadow the third one. -/
theorem length_matching_le (cs : List Char) : (matching cs).length ≤ 2 := by
  have hshadows := matching_shadows cs
  have hmatch : ∀ r ∈ matching cs, ∃ m, r.match? cs = some m := fun r hr =>
    (exists_of_mem_matching hr).2
  generalize matching cs = rs at hshadows hmatch ⊢
  rcases rs with _ | ⟨r, _ | ⟨s, _ | ⟨t, l⟩⟩⟩
  · simp
  · simp
  · simp
  · exfalso
    obtain ⟨hr, hrest⟩ := List.pairwise_cons.1 hshadows
    have hrs := hr s (by simp)
    have hst := (List.pairwise_cons.1 hrest).1 t (by simp)
    obtain ⟨n, hn⟩ := hmatch s (by simp)
    obtain ⟨y, hy, -⟩ := Option.map_eq_some_iff.1 hn
    rw [Pattern.shadows_eq_false hrs hy] at hst
    cases hst

/-! ## Words and names -/

theorem cutName_reserved {v : String} (hv : v ∈ reservedWords) (rest : List Char) :
    cutName (v.toList ++ rest) =
      some (v.toList ++ rest.takeWhile continuesName, rest.dropWhile continuesName) := by
  obtain ⟨c, cs, hcs, hstart⟩ := startsName_head_reserved hv
  have hname := continuesName_of_reserved hv
  rw [hcs] at hname ⊢
  have htail : ∀ d ∈ cs, continuesName d = true := fun d hd =>
    hname d (List.mem_cons_of_mem c hd)
  rw [List.cons_append, cutName, if_pos hstart, List.takeWhile_append_of_pos htail,
    List.dropWhile_append_of_pos htail]
  rfl

/-- A rule for words takes a reserved word that is complete. -/
theorem reserved_of_match {r : Rule} (hr : r ∈ rules) {vs : List String}
    (hp : r.pattern = .reserved vs) {cs : List Char} {m : Match} (h : r.match? cs = some m) :
    ∃ v ∈ reservedWords, m.piece = v.toList ∧ cs = v.toList ++ m.rest ∧
      endsWord m.rest = true := by
  have hwords : (rules.all fun r => r.pattern.allWords (fun _ => true)
      (fun v => v ∈ reservedWords)) = true := by decide
  have hvs := List.all_eq_true.1 hwords r hr
  obtain ⟨x, hx, rfl⟩ := Option.map_eq_some_iff.1 h
  rw [hp] at hvs hx
  obtain ⟨hcut, hends⟩ := cutReserved_eq_some hx
  obtain ⟨happ, v, hv, hpiece⟩ := cutSpelling_append hcut
  rw [hpiece] at happ
  exact ⟨v, by simpa using List.all_eq_true.1 hvs v hv, hpiece, happ.symm, hends⟩

/-- A name goes beyond a complete reserved word at a character that continues names only. -/
theorem length_name_eq {v : String} (hv : v ∈ reservedWords) {rest : List Char}
    (hends : endsWord rest = true) (hno : ¬ WordInName (v.toList ++ rest))
    {x : List Char × List Char} (h : cutName (v.toList ++ rest) = some x) :
    byteLength x.1 = byteLength v.toList := by
  have hrest : rest.takeWhile continuesName = [] := by
    cases rest with
    | nil => rfl
    | cons c rest =>
      have hext : extendsWord c = false := endsWord_iff.1 hends c rfl
      refine List.takeWhile_cons_of_neg ?_
      intro hname
      exact hno ⟨v, hv, c, rest, rfl, hname, hext⟩
  rw [cutName_reserved hv, hrest] at h
  cases h
  simp

/-! ## The first match -/

theorem isLongest_of_firstMatch {cs : List Char} {m : Match} (h : firstMatch cs = some m)
    (hno : ¬ WordInName cs) : IsLongest cs m := by
  obtain ⟨before, r, after, hrules, hm, hbefore⟩ := List.findSome?_eq_some_iff.1 h
  refine ⟨before, r, after, hrules, hm, ?_, ?_⟩
  · intro s hs n hn
    cases (hbefore s hs).symm.trans hn
  · intro s hs n hn
    have hordered := rules_ordered
    rw [hrules] at hordered
    have hrs := (List.pairwise_cons.1 (List.pairwise_append.1 hordered).2.1).1 s hs
    have hr : r ∈ rules := by simp [hrules]
    have hshadows := shadows_of_match hr (by simp [hrules, hs]) hrs hm hn
    obtain ⟨x, hx, rfl⟩ := Option.map_eq_some_iff.1 hm
    obtain ⟨y, hy, rfl⟩ := Option.map_eq_some_iff.1 hn
    rcases Pattern.shadows_cases hshadows hx hy with ⟨htwo, hone⟩ | ⟨⟨vs, hp⟩, hq⟩
    · simp only [htwo, hone]
      decide
    · obtain ⟨v, hv, hpiece, rfl, hends⟩ := reserved_of_match hr hp hm
      rw [hq] at hy
      rw [hpiece]
      exact Nat.le_of_eq (length_name_eq hv hends hno hy)

/-- Of a word before a character that continues names only, the rule for names takes more. -/
theorem firstMatch_of_word {v : String} (hv : v ∈ reservedWords) {c : Char} {rest : List Char}
    (hname : continuesName c = true) (hext : extendsWord c = false) :
    ∃ k ∈ wordKinds, v ∈ k.spellings ∧
      firstMatch (v.toList ++ c :: rest) = some ⟨v.toList, c :: rest, .emit k⟩ ∧
      ∃ s ∈ rules, ∃ n, s.action = .emit .identifier ∧
        s.match? (v.toList ++ c :: rest) = some n ∧
        byteLength v.toList < byteLength n.piece := by
  obtain ⟨k, hk, hspelling⟩ := exists_kind_of_reserved hv
  have hends : k.Ends (c :: rest) := (ends_iff_endsWord hk).2 (by simp [endsWord, hext])
  have hmem : (⟨.name, .emit .identifier, rfl⟩ : Rule) ∈ rules := by simp [rules]
  refine ⟨k, hk, hspelling, firstMatch_spelling hspelling hends, _, hmem, _, rfl,
    congrArg (Option.map _) (cutName_reserved hv (c :: rest)), ?_⟩
  have hpos := c.utf8Size_pos
  simp only [byteLength_append, List.takeWhile_cons_of_pos hname, byteLength_cons]
  omega

/-- Two rules of the table at most match a text. The first match is the longest one, and that of
the earliest rule where two are as long, but for a text that begins with a reserved word before a
character that continues names only. There the word is taken, though a name would be longer. -/
theorem firstMatch_longest :
    rules.length = 22 ∧
    (∀ cs : List Char, (matching cs).length ≤ 2 ∧
      (firstMatch cs = none ↔ ∀ r ∈ rules, r.match? cs = none) ∧
      ∀ m, firstMatch cs = some m → (IsLongest cs m ↔ ¬ WordInName cs)) ∧
    (∀ v ∈ reservedWords, ∀ c rest, continuesName c = true → extendsWord c = false →
      ∃ k ∈ wordKinds, v ∈ k.spellings ∧
        firstMatch (v.toList ++ c :: rest) = some ⟨v.toList, c :: rest, .emit k⟩ ∧
        ∃ s ∈ rules, ∃ n, s.action = .emit .identifier ∧
          s.match? (v.toList ++ c :: rest) = some n ∧
          byteLength v.toList < byteLength n.piece) ∧
    ∀ c, continuesName c = true ∧ extendsWord c = false ↔
      mark.contains c = true ∧ alphabetic.contains c = false ∨
        connector.contains c = true ∧ c ≠ '_' ∨ joinControl.contains c = true := by
  refine ⟨rfl, fun cs => ⟨length_matching_le cs, List.findSome?_eq_none_iff, fun m hm => ?_⟩,
    fun v hv c rest => firstMatch_of_word hv, continues_only_iff⟩
  refine ⟨?_, isLongest_of_firstMatch hm⟩
  rintro hlongest ⟨v, hv, c, rest, rfl, hname, hext⟩
  obtain ⟨k, -, -, hfirst, s, hs, n, -, hn, hlt⟩ := firstMatch_of_word hv hname hext
  cases hm.symm.trans hfirst
  exact absurd (hlongest.le hs hn) (Nat.not_le.2 hlt)

/-- A grave accent is no letter, so it leaves `if` a word, though `if` with the accent is a name. -/
theorem firstMatch_longest_accent :
    firstMatch ['i', 'f', '\u0300'] = some ⟨['i', 'f'], ['\u0300'], .emit .ifWord⟩ ∧
      ¬ IsLongest ['i', 'f', '\u0300'] ⟨['i', 'f'], ['\u0300'], .emit .ifWord⟩ := by
  have hname : continuesName '\u0300' = true := by decide +kernel
  have hext : extendsWord '\u0300' = false := by decide +kernel
  obtain ⟨k, hk, hspelling, hfirst, -⟩ :=
    firstMatch_longest.2.2.1 "if" (by decide) '\u0300' [] hname hext
  obtain rfl : k = .ifWord := by
    have honly : ∀ k ∈ wordKinds, "if" ∈ k.spellings → k = .ifWord := by decide
    exact honly k hk hspelling
  have hword : WordInName ['i', 'f', '\u0300'] :=
    ⟨"if", by decide, '\u0300', [], rfl, hname, hext⟩
  exact ⟨hfirst, fun hlongest => ((firstMatch_longest.2.1 _).2.2 _ hfirst).1 hlongest hword⟩

end Scriptlet
