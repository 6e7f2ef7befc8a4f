import Scriptlet.Proofs.Scan.Classes
import Scriptlet.Proofs.Scan.Lexeme

/-!
# Scriptlet.Proofs.Scan.Delimited

Lexemes with a text after them in which they do not go on:

* `Unreserved w`      — no reserved word stands complete at the front of `w`.
* `Kind.Printable`    — the texts of a kind that are read back as they are. They are its lexemes
                        but for names that begin with a reserved word.
* `Kind.Ends k rest`  — a lexeme of the kind `k` ends before `rest`. One character decides it.

`firstMatch_printable` says that such a lexeme is taken whole, by the rule of its kind. No earlier
rule takes anything, because a spelling that the text begins with would have to lie within the
lexeme (`prefix_of_within`).
-/

namespace Scriptlet

def reservedWords : List String :=
  ["function", "true", "false", "let", "if", "else", "of", "for"]

def Unreserved (w : List Char) : Prop :=
  ∀ v ∈ reservedWords, ∀ rest, w = v.toList ++ rest → ∃ c ∈ rest.head?, extendsWord c = true

theorem unreserved_iff {w : List Char} :
    Unreserved w ↔ ∀ v ∈ reservedWords, v.toList <+: w →
      ((w.drop v.toList.length).head?.any extendsWord) = true := by
  constructor
  · rintro h v hv ⟨rest, rfl⟩
    obtain ⟨c, hc, hext⟩ := h v hv rest rfl
    rw [List.drop_left, Option.any_eq_true]
    exact ⟨c, hc, hext⟩
  · rintro h v hv rest rfl
    have := h v hv (List.prefix_append v.toList rest)
    rwa [List.drop_left, Option.any_eq_true] at this

def Kind.Printable (k : Kind) (w : List Char) : Prop :=
  k.Lexeme w ∧ (k = .identifier → Unreserved w)

/-- No reserved word is so short. -/
theorem unreserved_letter (c : Char) : Unreserved [c] := by
  intro v hv rest hw
  have hlong : ∀ v ∈ reservedWords, 2 ≤ v.toList.length := by decide
  have hlength := congrArg List.length hw
  rw [List.length_singleton, List.length_append] at hlength
  have := hlong v hv
  omega

theorem printable_letter {c : Char} (hc : startsName c = true) : Kind.identifier.Printable [c] :=
  ⟨⟨c, [], rfl, hc, nofun⟩, fun _ => unreserved_letter c⟩

theorem Kind.mem_all_of_spellings {P : Kind → String → Bool}
    (h : (Kind.all.all fun k => k.spellings.all fun v => P k v) = true) {k : Kind} {v : String}
    (hv : v ∈ k.spellings) : P k v = true :=
  List.all_eq_true.1 (List.all_eq_true.1 h k (Kind.mem_all k)) v hv

/-- What a rule passes over begins as trivia do. -/
theorem Skipped.separates {w rest : List Char} (h : Skipped w rest) :
    ∃ c cs, w = c :: cs ∧ separates c = true := by
  cases h with
  | blanks hne hw _ =>
    cases w with
    | nil => exact absurd rfl hne
    | cons c cs => exact ⟨c, cs, rfl, by simp [Scriptlet.separates, hw c List.mem_cons_self]⟩
  | line _ _ => exact ⟨_, _, rfl, by simp [Scriptlet.separates]⟩
  | block hb =>
    obtain ⟨⟨body, rfl⟩, -⟩ := hb
    exact ⟨_, _, rfl, by simp [Scriptlet.separates]⟩

/-- No lexeme begins as trivia do. -/
theorem separates_head_lexeme {k : Kind} {w : List Char} (h : k.Lexeme w) :
    ∃ c cs, w = c :: cs ∧ separates c = false := by
  have apart : ∀ {c}, separates c ≠ true → separates c = false := fun hne => by simpa using hne
  by_cases hk : k.spelled = true
  · obtain ⟨v, hv, rfl⟩ := (Kind.lexeme_iff_of_spelled hk).1 h
    have hhead := Kind.mem_all_of_spellings (P := fun _ v =>
      v.toList.head?.any fun c => !separates c) (by decide +kernel) hv
    obtain ⟨c, hc, hsep⟩ := (Option.any_eq_true _ _).1 hhead
    obtain ⟨cs, hcs⟩ := List.head?_eq_some_iff.1 hc
    exact ⟨c, cs, hcs, by simpa using hsep⟩
  · cases k with
    | number =>
      obtain ⟨hne, hdigits⟩ := h
      cases w with
      | nil => exact absurd rfl hne
      | cons c cs =>
        refine ⟨c, cs, rfl, apart fun hsep => ?_⟩
        have hc := hdigits c List.mem_cons_self
        rw [(apart_of_separates hsep).2.2.2] at hc
        cases hc
    | string =>
      obtain ⟨q, inner, -, rfl⟩ := h
      have hall : ∀ q ∈ Quote.all, separates q.character = false := by decide +kernel
      exact ⟨_, _, rfl, hall q (by cases q <;> decide)⟩
    | identifier =>
      obtain ⟨c, cs, rfl, hc, -⟩ := h
      refine ⟨c, cs, rfl, apart fun hsep => ?_⟩
      rw [(apart_of_separates hsep).1] at hc
      cases hc
    | _ => exact absurd rfl hk

/-- Whether a lexeme of a kind is read differently when this character comes directly after it. -/
def Kind.goesOn : Kind → Char → Bool
  | number => isDigit
  | identifier => continuesName
  | comma => (· == ')')
  | assign => (· == '=')
  | boolean | functionWord | letWord | ifWord | elseWord | forWord | ofWord => extendsWord
  | _ => fun _ => false

/-- Whether a lexeme of a kind ends where this text follows it. -/
def Kind.Ends (k : Kind) (rest : List Char) : Prop := ∀ c ∈ rest.head?, k.goesOn c = false

/-! ## Spellings that go beyond a lexeme -/

/-- Whether a pattern surely takes nothing of a text that begins with `w`, unless it takes more
than `w`. -/
def Pattern.refuses : Pattern → List Char → Bool
  | .spelled vs, w | .reserved vs, w => vs.all fun v => !v.toList.isPrefixOf w
  | p, w => w.head?.any fun c => !p.opens c

/-- Whether the spellings that are longer than the lexeme `w` go on as the text after it cannot. -/
def Pattern.within : Pattern → Kind → List Char → Bool
  | .spelled vs, k, w | .reserved vs, k, w =>
    vs.all fun v => !w.isPrefixOf v.toList || (v.toList.drop w.length).head?.all k.goesOn
  | _, _, _ => true

/-- A spelling that begins a text lies within the lexeme at its front. -/
theorem prefix_of_within {vs : List String} {k : Kind} {w rest : List Char}
    (hs : (Pattern.spelled vs).within k w = true) (hr : k.Ends rest) {v : String} (hv : v ∈ vs)
    (h : v.toList <+: w ++ rest) : v.toList <+: w := by
  rcases List.prefix_or_prefix_of_prefix h (List.prefix_append w rest) with hvw | hwv
  · exact hvw
  · have hall := List.all_eq_true.1 hs v hv
    obtain ⟨u, hu⟩ := hwv
    rw [← hu] at h hall ⊢
    have hrest : u <+: rest := (List.prefix_append_right_inj w).1 h
    cases u with
    | nil => simp
    | cons c u =>
      obtain ⟨t, rfl⟩ := hrest
      rw [List.isPrefixOf_iff_prefix.2 (List.prefix_append w (c :: u)), List.drop_left] at hall
      have hgo : k.goesOn c = true := by simpa using hall
      rw [hr c rfl] at hgo
      cases hgo

theorem cutSpelling_eq_none_of_refuses {vs : List String} {k : Kind} {w rest : List Char}
    (hs : (Pattern.spelled vs).within k w = true) (hr : k.Ends rest)
    (h : (Pattern.spelled vs).refuses w = true) : cutSpelling vs (w ++ rest) = none := by
  cases hcut : cutSpelling vs (w ++ rest) with
  | none => rfl
  | some x =>
    obtain ⟨piece, after⟩ := x
    obtain ⟨happ, v, hv, rfl⟩ := cutSpelling_append hcut
    have hpre := prefix_of_within hs hr hv (happ ▸ List.prefix_append v.toList after)
    have hno : v.toList.isPrefixOf w = false := by simpa using List.all_eq_true.1 h v hv
    rw [List.isPrefixOf_iff_prefix.2 hpre] at hno
    cases hno

theorem split?_eq_none_of_refuses {p : Pattern} {k : Kind} {w rest : List Char}
    (hp : p.proper = true) (hs : p.within k w = true) (hr : k.Ends rest)
    (h : p.refuses w = true) : p.split? (w ++ rest) = none := by
  have opening : (w.head?.any fun c => !p.opens c) = true → p.split? (w ++ rest) = none := by
    intro hw
    cases w with
    | nil => simp at hw
    | cons c cs => exact Pattern.split?_eq_none hp (by simpa using hw)
  cases p with
  | spelled vs => exact cutSpelling_eq_none_of_refuses hs hr h
  | reserved vs =>
    have hcut : cutSpelling vs (w ++ rest) = none := cutSpelling_eq_none_of_refuses hs hr h
    simp [Pattern.split?, cutReserved, hcut]
  | blanks => exact opening h
  | lineComment => exact opening h
  | blockComment => exact opening h
  | digits => exact opening h
  | quoted => exact opening h
  | name => exact opening h

theorem findSome?_of_find? {α β : Type} {f : α → Option β} {p : α → Bool} {l : List α} {x : α}
    {y : β} (hfind : l.find? p = some x) (hnone : ∀ z ∈ l, p z = false → f z = none)
    (hx : f x = some y) : l.findSome? f = some y := by
  induction l with
  | nil => cases hfind
  | cons z l ih =>
    cases hz : p z with
    | true =>
      rw [List.find?_cons_of_pos hz] at hfind
      cases hfind
      rw [List.findSome?_cons, hx]
    | false =>
      rw [List.find?_cons_of_neg (by simp [hz])] at hfind
      rw [List.findSome?_cons, hnone z List.mem_cons_self hz]
      exact ih hfind fun u hu => hnone u (List.mem_cons_of_mem z hu)

/-! ## Kinds with few spellings -/

/-- The first rule that may take a spelling is one that emits its kind. -/
theorem exists_rule_of_spelling {k : Kind} {v : String} (hv : v ∈ k.spellings) :
    ∃ r, (rules.find? fun r => !r.pattern.refuses v.toList) = some r ∧ r.action = .emit k := by
  have hrule := Kind.mem_all_of_spellings (P := fun k v =>
    ((rules.find? fun r => !r.pattern.refuses v.toList).map fun r => r.action) = some (.emit k))
    (by decide +kernel) hv
  exact Option.map_eq_some_iff.1 (by simpa using hrule)

/-- No spelling of a kind begins another one of it. -/
theorem eq_of_prefix_of_spelling {k : Kind} {u v : String} (hu : u ∈ k.spellings)
    (hv : v ∈ k.spellings) (h : u.toList <+: v.toList) : u = v := by
  have hpair := Kind.mem_all_of_spellings (P := fun k v =>
    k.spellings.all fun u => !u.toList.isPrefixOf v.toList || u == v) (by decide) hv
  have := List.all_eq_true.1 hpair u hu
  rw [List.isPrefixOf_iff_prefix.2 h] at this
  simpa using this

theorem spelled_of_mem_spellings {k : Kind} {v : String} (hv : v ∈ k.spellings) :
    k.spelled = true :=
  Kind.mem_all_of_spellings (P := fun k _ => k.spelled) (by decide) hv

theorem within_of_spelling {k : Kind} {v : String} (hv : v ∈ k.spellings) {r : Rule}
    (hr : r ∈ rules) : r.pattern.within k v.toList = true := by
  have hall := Kind.mem_all_of_spellings (P := fun k v =>
    rules.all fun r => r.pattern.within k v.toList) (by decide +kernel) hv
  exact List.all_eq_true.1 hall r hr

theorem cutSpelling_of_spelling {k : Kind} {v : String} (hv : v ∈ k.spellings)
    (rest : List Char) : cutSpelling k.spellings (v.toList ++ rest) = some (v.toList, rest) := by
  have hfind : (k.spellings.find? fun u => u.toList.isPrefixOf (v.toList ++ rest)) = some v := by
    cases hf : k.spellings.find? fun u => u.toList.isPrefixOf (v.toList ++ rest) with
    | none =>
      have := List.find?_eq_none.1 hf v hv
      simp at this
    | some u =>
      have hu := List.mem_of_find?_eq_some hf
      have hpre : u.toList <+: v.toList ++ rest := by simpa using List.find?_some hf
      rcases List.prefix_or_prefix_of_prefix hpre (List.prefix_append v.toList rest) with h | h
      · rw [eq_of_prefix_of_spelling hu hv h]
      · rw [eq_of_prefix_of_spelling hv hu h]
  simp [cutSpelling, hfind]

theorem endsWord_iff {rest : List Char} :
    endsWord rest = true ↔ ∀ c ∈ rest.head?, extendsWord c = false := by
  cases rest with
  | nil => simp [endsWord]
  | cons c cs => simp [endsWord]

/-- The kinds with a rule for reserved words. -/
def wordKinds : List Kind :=
  [.boolean, .functionWord, .letWord, .ifWord, .elseWord, .forWord, .ofWord]

theorem exists_kind_of_reserved {v : String} (hv : v ∈ reservedWords) :
    ∃ k ∈ wordKinds, v ∈ k.spellings := by
  have hall : ∀ v ∈ reservedWords, ∃ k ∈ wordKinds, v ∈ k.spellings := by decide
  exact hall v hv

theorem mem_words_of_reserved {r : Rule} (hr : r ∈ rules) {ws : List String}
    (hp : r.pattern = .reserved ws) {k : Kind} (hk : r.action = .emit k) :
    k ∈ wordKinds := by
  have hwords : ∀ r ∈ rules, ∀ k ∈ Kind.all, r.action = .emit k →
      (match r.pattern with | .reserved _ => true | _ => false) = true → k ∈ wordKinds := by
    decide
  exact hwords r hr k (Kind.mem_all k) hk (by rw [hp])

theorem ends_iff_endsWord {k : Kind} (hk : k ∈ wordKinds) {rest : List Char} :
    k.Ends rest ↔ endsWord rest = true := by
  rw [endsWord_iff]
  simp only [wordKinds, List.mem_cons, List.not_mem_nil, or_false] at hk
  rcases hk with rfl | rfl | rfl | rfl | rfl | rfl | rfl <;> rfl

theorem firstMatch_spelling {k : Kind} {v : String} {rest : List Char} (hv : v ∈ k.spellings)
    (hr : k.Ends rest) :
    firstMatch (v.toList ++ rest) = some ⟨v.toList, rest, .emit k⟩ := by
  obtain ⟨r, hfind, hk⟩ := exists_rule_of_spelling hv
  have hmem := List.mem_of_find?_eq_some hfind
  have hsuits := suits_of_mem_rules hmem hk
  have hspelled := spelled_of_mem_spellings hv
  have hcut := cutSpelling_of_spelling hv rest
  have hsplit : r.pattern.split? (v.toList ++ rest) = some (v.toList, rest) := by
    cases hp : r.pattern with
    | spelled ws =>
      rw [hp] at hsuits
      obtain ⟨-, rfl⟩ : k.spelled = true ∧ ws = k.spellings := by simpa [Pattern.suits] using hsuits
      exact hcut
    | reserved ws =>
      rw [hp] at hsuits
      obtain ⟨-, rfl⟩ : k.spelled = true ∧ ws = k.spellings := by simpa [Pattern.suits] using hsuits
      have hends := (ends_iff_endsWord (mem_words_of_reserved hmem hp hk)).1 hr
      simp [Pattern.split?, cutReserved, hcut, hends]
    | digits => simp_all [Pattern.suits, Kind.spelled]
    | quoted => simp_all [Pattern.suits, Kind.spelled]
    | name => simp_all [Pattern.suits, Kind.spelled]
    | blanks => simp [hp, Pattern.suits] at hsuits
    | lineComment => simp [hp, Pattern.suits] at hsuits
    | blockComment => simp [hp, Pattern.suits] at hsuits
  refine findSome?_of_find? hfind (fun z hz hno => ?_) ?_
  · have hrefuses : z.pattern.refuses v.toList = true := by simpa using hno
    rw [Rule.match?, split?_eq_none_of_refuses z.proper (within_of_spelling hv hz) hr hrefuses]
    rfl
  · rw [Rule.match?, hsplit, hk]
    rfl

/-! ## Numbers, strings and names -/

theorem firstMatch_number {w rest : List Char} (hw : Kind.number.Lexeme w)
    (hr : Kind.number.Ends rest) : firstMatch (w ++ rest) = some ⟨w, rest, .emit .number⟩ := by
  obtain ⟨hne, hdigits⟩ := hw
  have hcut := cutRun_of_run hne hdigits hr
  cases w with
  | nil => exact absurd rfl hne
  | cons c cs =>
    have hall : ∀ c ∈ digitCharacters,
        candidates c = [{ pattern := .digits, action := .emit .number }] := by
      intro c hc
      simp only [digitCharacters, List.mem_cons, List.not_mem_nil, or_false] at hc
      rcases hc with rfl | rfl | rfl | rfl | rfl | rfl | rfl | rfl | rfl | rfl <;> rfl
    have hc := hall c (mem_digits_of_isDigit (hdigits c List.mem_cons_self))
    rw [List.cons_append] at hcut ⊢
    simp [firstMatch_cons, hc, Rule.match?, Pattern.split?, hcut]

theorem cutQuoted_of_quoted {q : Quote} {inner rest : List Char} (h : q.character ∉ inner) :
    cutQuoted (q.character :: inner ++ [q.character] ++ rest) =
      some (q.character :: inner ++ [q.character], rest) := by
  have hinner : ∀ c ∈ inner, (decide (c ≠ q.character)) = true := by
    intro c hc
    simpa using fun he : c = q.character => h (he ▸ hc)
  have hclose : ∀ c ∈ (q.character :: rest).head?, (decide (c ≠ q.character)) = false := by
    simp
  obtain ⟨ht, hd⟩ := span_append hinner hclose
  simp only [List.cons_append, List.append_assoc, List.nil_append, cutQuoted,
    Quote.ofCharacter?_character, ht, hd]

theorem firstMatch_string {w : List Char} (hw : Kind.string.Lexeme w) (rest : List Char) :
    firstMatch (w ++ rest) = some ⟨w, rest, .emit .string⟩ := by
  obtain ⟨q, inner, hq, rfl⟩ := hw
  have hc : candidates q.character = [{ pattern := .quoted, action := .emit .string }] := by
    cases q <;> rfl
  have hcut : cutQuoted (q.character :: inner ++ [q.character] ++ rest) = _ :=
    cutQuoted_of_quoted hq
  rw [List.cons_append, List.cons_append] at hcut ⊢
  rw [firstMatch_cons, hc, List.findSome?_cons, Rule.match?, Pattern.split?, hcut]
  rfl

theorem cutName_of_name {c : Char} {cs rest : List Char} (hc : startsName c = true)
    (hcs : ∀ d ∈ cs, continuesName d = true) (hr : Kind.identifier.Ends rest) :
    cutName (c :: cs ++ rest) = some (c :: cs, rest) := by
  obtain ⟨ht, hd⟩ := span_append hcs hr
  simp [cutName, hc, ht, hd]

theorem continuesName_of_reserved {v : String} (hv : v ∈ reservedWords) :
    ∀ c ∈ v.toList, continuesName c = true := by
  have hall : (reservedWords.all fun v => v.toList.all continuesName) = true := by decide +kernel
  exact List.all_eq_true.1 (List.all_eq_true.1 hall v hv)

/-- Every character of a reserved word continues a name. -/
theorem within_of_reserved {vs : List String} (hvs : ∀ v ∈ vs, v ∈ reservedWords) (w : List Char) :
    (Pattern.reserved vs).within .identifier w = true := by
  refine List.all_eq_true.2 fun v hv => ?_
  have hchars := continuesName_of_reserved (hvs v hv)
  rw [Bool.or_eq_true, Option.all_eq_true]
  exact .inr fun c hc => hchars c (List.mem_of_mem_drop (List.mem_of_mem_head? hc))

/-- A name goes on as a text with no reserved word at its front. -/
theorem Unreserved.append {w rest : List Char} (h : Unreserved w)
    (hr : Kind.identifier.Ends rest) : Unreserved (w ++ rest) := by
  intro v hv after happ
  have hvs : ∀ u ∈ [v], u ∈ reservedWords := by simpa using hv
  have hpre := prefix_of_within (within_of_reserved hvs w) hr List.mem_cons_self
    ⟨after, happ.symm⟩
  obtain ⟨t, rfl⟩ := hpre
  obtain rfl : t ++ rest = after := by simpa using happ
  obtain ⟨c, hc, hext⟩ := h v hv t rfl
  cases t with
  | nil => cases hc
  | cons d t => exact ⟨c, hc, hext⟩

theorem cutReserved_eq_none {vs : List String} {cs : List Char}
    (hvs : ∀ v ∈ vs, v ∈ reservedWords) (h : Unreserved cs) : cutReserved vs cs = none := by
  cases hcut : cutReserved vs cs with
  | none => rfl
  | some x =>
    obtain ⟨piece, after⟩ := x
    obtain ⟨hspelling, hends⟩ := cutReserved_eq_some hcut
    obtain ⟨happ, v, hv, rfl⟩ := cutSpelling_append hspelling
    obtain ⟨c, hc, hext⟩ := h v (hvs v hv) after happ.symm
    rw [endsWord_iff.1 hends c hc] at hext
    cases hext

theorem firstMatch_name {w rest : List Char} (hw : Kind.identifier.Lexeme w)
    (hu : Unreserved (w ++ rest)) (hr : Kind.identifier.Ends rest) :
    firstMatch (w ++ rest) = some ⟨w, rest, .emit .identifier⟩ := by
  obtain ⟨c, cs, rfl, hc, hcs⟩ := hw
  have hfind : (rules.find? fun r => r.pattern = .name) =
      some { pattern := .name, action := .emit .identifier } := rfl
  have hspellings : (rules.all fun r => r.pattern.allWords
      (fun v => v.toList.head?.all fun d => !startsName d)
      (fun v => v ∈ reservedWords)) = true := by decide +kernel
  refine findSome?_of_find? hfind (fun z hz hno => ?_) ?_
  · have hne : z.pattern ≠ .name := by simpa using hno
    have hz' := List.all_eq_true.1 hspellings z hz
    have hproper := z.proper
    rw [Rule.match?, Option.map_eq_none_iff]
    -- Only the rules for reserved words look beyond the first character.
    cases hp : z.pattern with
    | reserved vs =>
      rw [hp] at hz'
      exact cutReserved_eq_none (by simpa [Pattern.allWords] using hz') hu
    | spelled vs =>
      rw [hp] at hz' hproper
      refine Pattern.split?_eq_none hproper ?_
      rw [Pattern.opens, List.any_eq_false]
      intro v hv he
      have hhead := List.all_eq_true.1 hz' v hv
      rw [beq_iff_eq.1 he] at hhead
      simp [hc] at hhead
    | blanks => exact Pattern.split?_eq_none rfl (isBlank_of_startsName hc)
    | lineComment =>
      refine Pattern.split?_eq_none rfl ?_
      simpa [Pattern.opens] using slash_of_startsName hc
    | blockComment =>
      refine Pattern.split?_eq_none rfl ?_
      simpa [Pattern.opens] using slash_of_startsName hc
    | digits => exact Pattern.split?_eq_none rfl (isDigit_of_startsName hc)
    | quoted =>
      refine Pattern.split?_eq_none rfl ?_
      simp [Pattern.opens, ofCharacter?_of_startsName hc]
    | name => exact absurd hp hne
  · have := cutName_of_name hc hcs hr
    rw [Rule.match?, Pattern.split?, this]
    rfl

theorem firstMatch_printable {k : Kind} {w rest : List Char} (hw : k.Printable w)
    (hr : k.Ends rest) : firstMatch (w ++ rest) = some ⟨w, rest, .emit k⟩ := by
  obtain ⟨hlex, hname⟩ := hw
  by_cases hk : k.spelled = true
  · obtain ⟨v, hv, rfl⟩ := (Kind.lexeme_iff_of_spelled hk).1 hlex
    exact firstMatch_spelling hv hr
  · cases k with
    | number => exact firstMatch_number hlex hr
    | string => exact firstMatch_string hlex rest
    | identifier => exact firstMatch_name hlex ((hname rfl).append hr) hr
    | _ => exact absurd rfl hk

end Scriptlet
