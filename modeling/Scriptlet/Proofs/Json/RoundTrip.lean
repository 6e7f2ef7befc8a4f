import Scriptlet.Json.Layout
import Scriptlet.Proofs.Json.Numeral

/-!
# Scriptlet.Proofs.Json.RoundTrip

Reading back what was written. `read_text` says that a JSON value whose numbers are finite is the
one that is read from its text, in every layout that adds nothing but blanks. The texts of values
stand in front of a text that follows, and the reader goes on there (`readFrom_write`).
-/

namespace Scriptlet

namespace Json

/-! ## Strings -/

theorem hexValue?_hexDigit {n : Nat} (h : n < 16) : hexValue? (hexDigit n) = some n := by
  have hall : ∀ n < 16, hexValue? (hexDigit n) = some n := by decide
  exact hall n h

theorem unescape?_escapeLetter {c letter : Char} (h : escapeLetter? c = some letter) :
    unescape? letter = some c ∧ letter ≠ 'u' := by
  unfold escapeLetter? at h
  repeat' split at h
  all_goals first | (subst_vars; cases h; decide) | cases h

theorem readUnicode_control {c : Char} (h : c.toNat < 0x20) (rest : List Char) :
    readUnicode ('0' :: '0' :: hexDigit (c.toNat / 16) :: hexDigit (c.toNat % 16) :: rest) =
      some (c, rest) := by
  have hhigh := hexValue?_hexDigit (n := c.toNat / 16) (by omega)
  have hlow := hexValue?_hexDigit (Nat.mod_lt c.toNat (by decide : 16 > 0))
  have hzero : hexValue? '0' = some 0 := by decide
  have hvalue : ((0 * 16 + 0) * 16 + c.toNat / 16) * 16 + c.toNat % 16 = c.toNat := by omega
  have hnone : isHighSurrogate c.toNat = false ∧ isLowSurrogate c.toNat = false := by
    simp only [isHighSurrogate, isLowSurrogate, Bool.and_eq_false_iff, decide_eq_false_iff_not]
    omega
  simp only [readUnicode, readHex, hzero, hhigh, hlow, hvalue, hnone.1, hnone.2]
  simp

theorem escape_of_none {c : Char} (h : escapeLetter? c = none) : c ≠ '"' ∧ c ≠ '\\' := by
  constructor
  · rintro rfl
    cases h
  · rintro rfl
    cases h

theorem readCharacter_escape (c : Char) (rest : List Char) :
    readCharacter (escape c ++ rest) = some (c, rest) := by
  unfold escape
  split
  · rename_i letter hletter
    obtain ⟨hunescape, hne⟩ := unescape?_escapeLetter hletter
    simp [readCharacter, readEscape, hne, hunescape]
  · rename_i hnone
    obtain ⟨hquote, hslash⟩ := escape_of_none hnone
    split
    · rename_i hcontrol
      have := readUnicode_control hcontrol rest
      simpa [readCharacter, readEscape] using this
    · rename_i hcontrol
      simp [readCharacter, hslash, hquote, hcontrol]

theorem escape_head (c : Char) : ∃ d ds, escape c = d :: ds ∧ d ≠ '"' := by
  unfold escape
  split
  · exact ⟨_, _, rfl, by decide⟩
  · rename_i hnone
    split
    · exact ⟨_, _, rfl, by decide⟩
    · exact ⟨_, _, rfl, (escape_of_none hnone).1⟩

theorem readCharacters_cons {c d : Char} {cs rest : List Char} (hc : c ≠ '"')
    (h : readCharacter (c :: cs) = some (d, rest)) :
    readCharacters (c :: cs) = (readCharacters rest).map fun x => (d :: x.1, x.2) := by
  rw [readCharacters, if_neg hc]
  split
  · rename_i hread
    rw [h] at hread
    cases hread
    rfl
  · rename_i hread
    rw [h] at hread
    cases hread

theorem readCharacters_escaped (cs rest : List Char) :
    readCharacters (cs.flatMap escape ++ '"' :: rest) = some (cs, rest) := by
  induction cs with
  | nil => simp [readCharacters]
  | cons c cs ih =>
    have hread := readCharacter_escape c (cs.flatMap escape ++ '"' :: rest)
    obtain ⟨d, ds, hescape, hne⟩ := escape_head c
    rw [List.flatMap_cons, List.append_assoc]
    rw [hescape, List.cons_append] at hread ⊢
    rw [readCharacters_cons hne hread, ih]
    rfl

theorem readSymbol_quoted (s : String) (rest : List Char) :
    readSymbol (quoted s.toList ++ rest) = some (.scalar (.string s), rest) := by
  have hquoted : quoted s.toList ++ rest = '"' :: (s.toList.flatMap escape ++ '"' :: rest) := by
    simp [quoted]
  have hnone : structural? '"' = none := by decide
  simp [hquoted, readSymbol, hnone, readScalar, readCharacters_escaped]

/-! ## Numbers and words -/

/-- The characters that a number begins with. -/
def numberHeads : List Char := '-' :: digitChars (List.range 10)

theorem of_mem_numberHeads {p : Char → Prop} {c : Char} (hc : c ∈ numberHeads) (hminus : p '-')
    (hdigit : ∀ d < 10, p (digitChar d)) : p c := by
  rcases List.mem_cons.1 hc with rfl | hc
  · exact hminus
  · obtain ⟨d, hd, rfl⟩ := List.mem_map.1 hc
    exact hdigit d (List.mem_range.1 hd)

theorem text_head {x : Binary64} (hx : x.isFinite = true) :
    ∃ c cs, x.text = c :: cs ∧ c ∈ numberHeads := by
  obtain ⟨m, ⟨hne, -, hdigits⟩, htext, -⟩ := Binary64.exists_numeral hx
  rw [Binary64.text, htext]
  split
  · exact ⟨_, _, rfl, List.mem_cons_self⟩
  · obtain ⟨d, ds, hwhole⟩ := List.exists_cons_of_ne_nil hne
    have hd : d < 10 := hdigits d (by simp [Numeral.digits, hwhole])
    refine ⟨digitChar d, _, by rw [Numeral.text, hwhole]; rfl, List.mem_cons_of_mem _ ?_⟩
    exact List.mem_map_of_mem (List.mem_range.2 hd)

theorem readSymbol_text {x : Binary64} (hx : x.isFinite = true) {rest : List Char}
    (hrest : Delimited rest) : readSymbol (x.text ++ rest) = some (.scalar (.number x), rest) := by
  have hread := readNumber_text hx hrest
  obtain ⟨c, cs, htext, hc⟩ := text_head hx
  obtain ⟨hstructural, hword⟩ : (structural? c).isNone = true ∧ c ∉ ['"', 'n', 't', 'f'] := by
    apply of_mem_numberHeads hc <;> decide
  simp only [List.mem_cons, List.not_mem_nil, or_false, not_or] at hword
  obtain ⟨hquote, hn, ht, hf⟩ := hword
  rw [htext, List.cons_append] at hread ⊢
  have hnone : readWord (c :: (cs ++ rest)) = none := by
    unfold readWord
    split <;> simp_all
  rw [readSymbol, Option.isNone_iff_eq_none.1 hstructural]
  simp only [readScalar]
  split
  · simp_all
  · simp [hnone, hread]

/-! ## Values -/

mutual

/-- Whether a value and all values within it have a property. -/
def every (p : Json → Bool) : Json → Bool
  | array xs => p (array xs) && everyItem p xs
  | object ms => p (object ms) && everyMember p ms
  | j => p j

def everyItem (p : Json → Bool) : List Json → Bool
  | [] => true
  | x :: xs => every p x && everyItem p xs

def everyMember (p : Json → Bool) : List (String × Json) → Bool
  | [] => true
  | (_, x) :: ms => every p x && everyMember p ms

end

mutual

theorem every_mono {p q : Json → Bool} (hpq : ∀ j, p j = true → q j = true) (j : Json)
    (h : j.every p = true) : j.every q = true := by
  cases j with
  | array xs =>
    rw [every, Bool.and_eq_true] at h ⊢
    exact ⟨hpq _ h.1, everyItem_mono hpq xs h.2⟩
  | object ms =>
    rw [every, Bool.and_eq_true] at h ⊢
    exact ⟨hpq _ h.1, everyMember_mono hpq ms h.2⟩
  | null => exact hpq _ h
  | boolean b => exact hpq _ h
  | number x => exact hpq _ h
  | string s => exact hpq _ h

theorem everyItem_mono {p q : Json → Bool} (hpq : ∀ j, p j = true → q j = true)
    (xs : List Json) (h : everyItem p xs = true) : everyItem q xs = true := by
  cases xs with
  | nil => rfl
  | cons x xs =>
    rw [everyItem, Bool.and_eq_true] at h ⊢
    exact ⟨every_mono hpq x h.1, everyItem_mono hpq xs h.2⟩

theorem everyMember_mono {p q : Json → Bool} (hpq : ∀ j, p j = true → q j = true)
    (ms : List (String × Json)) (h : everyMember p ms = true) : everyMember q ms = true := by
  cases ms with
  | nil => rfl
  | cons m ms =>
    rw [everyMember, Bool.and_eq_true] at h ⊢
    exact ⟨every_mono hpq m.2 h.1, everyMember_mono hpq ms h.2⟩

end

/-- Whether a value is anything but a number without a text. -/
def hasText : Json → Bool
  | number x => x.isFinite
  | _ => true

end Json

/-- A layout that adds nothing but blanks. -/
structure Layout.Blank (l : Layout) : Prop where
  lineBreak : ∀ depth, ∀ c ∈ l.lineBreak depth, Json.isSpace c = true
  gap : ∀ c ∈ l.gap, Json.isSpace c = true

theorem Layout.blank_compact : compact.Blank := ⟨nofun, nofun⟩

theorem Layout.blank_indented : indented.Blank := by
  refine ⟨fun depth c hc => ?_, fun c hc => ?_⟩
  · rcases List.mem_cons.1 hc with rfl | hc
    · decide
    · rw [List.eq_of_mem_replicate hc]
      decide
  · rw [List.mem_singleton.1 hc]
    decide

namespace Json

/-- A stage at which a value may begin, with the frames around the value. -/
structure Awaits (x : Config) (fs : List Frame) : Prop where
  array : step x .openArray = some ⟨fs, .firstItem⟩
  object : step x .openObject = some ⟨fs, .firstKey⟩
  scalar : ∀ j, step x (.scalar j) = some ⟨fs, .after j⟩

theorem awaits_value (fs : List Frame) : Awaits ⟨fs, .value⟩ fs := ⟨rfl, rfl, fun _ => rfl⟩

theorem awaits_firstItem (fs : List Frame) : Awaits ⟨fs, .firstItem⟩ (.items [] :: fs) :=
  ⟨rfl, rfl, fun _ => rfl⟩

variable {l : Layout} {x : Config} {fs : List Frame} {following : List Char}

theorem readFrom_structural {c : Char} {s : Symbol} (hc : isSpace c = false)
    (h : structural? c = some s) (x : Config) (cs : List Char) :
    readFrom x (c :: cs) = (step x s).bind fun y => readFrom y cs := by
  refine readFrom_symbol ?_ ?_ x
  · rintro d ⟨⟩
    exact hc
  · rw [readSymbol, h]

theorem Awaits.readFrom_scalar (h : Awaits x fs) {j : Json} {cs : List Char}
    (hc : ∀ c ∈ cs.head?, isSpace c = false)
    (hread : readSymbol cs = some (.scalar j, following)) :
    readFrom x cs = readFrom ⟨fs, .after j⟩ following := by
  rw [readFrom_symbol hc hread, h.scalar]
  rfl

/-- A key and the colon after it. -/
theorem readFrom_key (hl : l.Blank) {ms : List (String × Json)} {k : String}
    (h : step x (.scalar (.string k)) = some ⟨fs, .colon ms k⟩) (rest : List Char) :
    readFrom x (quoted k.toList ++ ':' :: (l.gap ++ rest)) =
      readFrom ⟨.members ms k :: fs, .value⟩ rest := by
  have hhead : ∀ c ∈ (quoted k.toList ++ ':' :: (l.gap ++ rest)).head?, isSpace c = false := by
    rintro c ⟨⟩
    decide
  have hcolon : step ⟨fs, .colon ms k⟩ .colon = some ⟨.members ms k :: fs, .value⟩ := rfl
  rw [readFrom_symbol hhead (readSymbol_quoted k _), h, Option.bind_some,
    readFrom_structural (by decide) rfl, hcolon, Option.bind_some, readFrom_spaces hl.gap]

theorem delimited_lineBreak (hl : l.Blank) (depth : Nat) (h : Delimited following) :
    Delimited (l.lineBreak depth ++ following) := by
  have hspace : ∀ c, isSpace c = true → isDigit c = false ∧ c ≠ '.' ∧ c ≠ 'e' ∧ c ≠ 'E' := by
    intro c hc
    simp only [isSpace, Bool.or_eq_true, decide_eq_true_eq] at hc
    rcases hc with ((rfl | rfl) | rfl) | rfl <;> decide
  intro c hc
  cases hb : l.lineBreak depth with
  | nil =>
    rw [hb] at hc
    exact h c hc
  | cons d ds =>
    rw [hb] at hc
    cases hc
    exact hspace c (hl.lineBreak depth c (by rw [hb]; exact List.mem_cons_self))

theorem delimited_nil : Delimited [] := by
  intro c hc
  cases hc

theorem delimited_cons {c : Char} (h : c ∈ [',', ']', '\x7d']) : Delimited (c :: following) := by
  simp only [List.mem_cons, List.not_mem_nil, or_false] at h
  rintro d ⟨⟩
  rcases h with rfl | rfl | rfl <;> decide

theorem delimited_writeItems (depth : Nat) (xs : List Json) (h : Delimited following) :
    Delimited (writeItems l depth xs following) := by
  cases xs with
  | nil => rwa [writeItems]
  | cons x xs =>
    rw [writeItems]
    exact delimited_cons (by decide)

theorem delimited_writeMembers (depth : Nat) (ms : List (String × Json))
    (h : Delimited following) : Delimited (writeMembers l depth ms following) := by
  cases ms with
  | nil => rwa [writeMembers]
  | cons m ms =>
    rw [writeMembers]
    exact delimited_cons (by decide)

mutual

theorem readFrom_write (hl : l.Blank) (j : Json) (hj : j.every hasText = true) (depth : Nat)
    {x : Config} {fs : List Frame} (hx : Awaits x fs) {following : List Char}
    (hf : Delimited following) :
    readFrom x (write l depth j following) = readFrom ⟨fs, .after j⟩ following := by
  cases j with
  | null =>
    rw [write]
    exact hx.readFrom_scalar (by rintro c ⟨⟩; decide) (by rfl)
  | boolean b =>
    cases b with
    | true =>
      rw [write]
      exact hx.readFrom_scalar (by rintro c ⟨⟩; decide) (by rfl)
    | false =>
      rw [write]
      exact hx.readFrom_scalar (by rintro c ⟨⟩; decide) (by rfl)
  | number n =>
    have hn : n.isFinite = true := hj
    rw [write, numberText, if_pos hn]
    refine hx.readFrom_scalar ?_ (readSymbol_text hn hf)
    obtain ⟨c, cs, htext, hc⟩ := text_head hn
    rw [htext]
    rintro d ⟨⟩
    apply of_mem_numberHeads hc <;> decide
  | string s =>
    rw [write]
    exact hx.readFrom_scalar (by rintro c ⟨⟩; decide) (readSymbol_quoted s following)
  | array xs =>
    cases xs with
    | nil =>
      have hclose : step ⟨fs, .firstItem⟩ .closeArray = some ⟨fs, .after (.array [])⟩ := rfl
      rw [write, readFrom_structural (by decide) rfl, hx.array, Option.bind_some,
        readFrom_structural (by decide) rfl, hclose, Option.bind_some]
    | cons y ys =>
      rw [every, everyItem, Bool.and_eq_true, Bool.and_eq_true] at hj
      obtain ⟨-, hy, hys⟩ := hj
      have hclose : Delimited (l.lineBreak depth ++ ']' :: following) :=
        delimited_lineBreak hl depth (delimited_cons (by decide))
      rw [write, readFrom_structural (by decide) rfl, hx.array, Option.bind_some,
        readFrom_spaces (hl.lineBreak (depth + 1)),
        readFrom_write hl y hy (depth + 1) (awaits_firstItem fs)
          (delimited_writeItems (depth + 1) ys hclose),
        readFrom_writeItems hl ys hys (depth + 1) depth [] y fs following]
      rfl
  | object ms =>
    cases ms with
    | nil =>
      have hclose : step ⟨fs, .firstKey⟩ .closeObject = some ⟨fs, .after (.object [])⟩ := rfl
      rw [write, readFrom_structural (by decide) rfl, hx.object, Option.bind_some,
        readFrom_structural (by decide) rfl, hclose, Option.bind_some]
    | cons m ms =>
      obtain ⟨k, y⟩ := m
      rw [every, everyMember, Bool.and_eq_true, Bool.and_eq_true] at hj
      obtain ⟨-, hy, hms⟩ := hj
      have hclose : Delimited (l.lineBreak depth ++ '\x7d' :: following) :=
        delimited_lineBreak hl depth (delimited_cons (by decide))
      rw [write, readFrom_structural (by decide) rfl, hx.object, Option.bind_some,
        readFrom_spaces (hl.lineBreak (depth + 1)), readFrom_key hl rfl,
        readFrom_write hl y hy (depth + 1) (awaits_value _)
          (delimited_writeMembers (depth + 1) ms hclose),
        readFrom_writeMembers hl ms hms (depth + 1) depth [] k y fs following]
      rfl

theorem readFrom_writeItems (hl : l.Blank) (xs : List Json) (hxs : everyItem hasText xs = true)
    (depth depth' : Nat) (before : List Json) (j : Json) (fs : List Frame)
    (following : List Char) :
    readFrom ⟨.items before :: fs, .after j⟩
        (writeItems l depth xs (l.lineBreak depth' ++ ']' :: following)) =
      readFrom ⟨fs, .after (.array (before.reverse ++ j :: xs))⟩ following := by
  cases xs with
  | nil =>
    have hclose : step ⟨.items before :: fs, .after j⟩ .closeArray =
        some ⟨fs, .after (.array (j :: before).reverse)⟩ := rfl
    rw [writeItems, readFrom_spaces (hl.lineBreak depth'), readFrom_structural (by decide) rfl,
      hclose, Option.bind_some, List.reverse_cons]
  | cons y ys =>
    rw [everyItem, Bool.and_eq_true] at hxs
    have hcomma : step ⟨.items before :: fs, .after j⟩ .comma =
        some ⟨.items (j :: before) :: fs, .value⟩ := rfl
    have hclose : Delimited (l.lineBreak depth' ++ ']' :: following) :=
      delimited_lineBreak hl depth' (delimited_cons (by decide))
    rw [writeItems, readFrom_structural (by decide) rfl, hcomma, Option.bind_some,
      readFrom_spaces (hl.lineBreak depth),
      readFrom_write hl y hxs.1 depth (awaits_value _) (delimited_writeItems depth ys hclose),
      readFrom_writeItems hl ys hxs.2 depth depth' (j :: before) y fs following]
    simp

theorem readFrom_writeMembers (hl : l.Blank) (ms : List (String × Json))
    (hms : everyMember hasText ms = true) (depth depth' : Nat) (before : List (String × Json))
    (k : String) (j : Json) (fs : List Frame) (following : List Char) :
    readFrom ⟨.members before k :: fs, .after j⟩
        (writeMembers l depth ms (l.lineBreak depth' ++ '\x7d' :: following)) =
      readFrom ⟨fs, .after (.object (before.reverse ++ (k, j) :: ms))⟩ following := by
  cases ms with
  | nil =>
    have hclose : step ⟨.members before k :: fs, .after j⟩ .closeObject =
        some ⟨fs, .after (.object ((k, j) :: before).reverse)⟩ := rfl
    rw [writeMembers, readFrom_spaces (hl.lineBreak depth'), readFrom_structural (by decide) rfl,
      hclose, Option.bind_some, List.reverse_cons]
  | cons m ms =>
    obtain ⟨k', y⟩ := m
    rw [everyMember, Bool.and_eq_true] at hms
    have hcomma : step ⟨.members before k :: fs, .after j⟩ .comma =
        some ⟨fs, .key ((k, j) :: before)⟩ := rfl
    have hclose : Delimited (l.lineBreak depth' ++ '\x7d' :: following) :=
      delimited_lineBreak hl depth' (delimited_cons (by decide))
    rw [writeMembers, readFrom_structural (by decide) rfl, hcomma, Option.bind_some,
      readFrom_spaces (hl.lineBreak depth), readFrom_key hl rfl,
      readFrom_write hl y hms.1 depth (awaits_value _) (delimited_writeMembers depth ms hclose),
      readFrom_writeMembers hl ms hms.2 depth depth' ((k, j) :: before) k' y fs following]
    simp

end

/-- A value with finite numbers is read from its text. -/
theorem read_text (hl : l.Blank) {j : Json} (hj : j.every hasText = true) :
    read (String.ofList (j.text l)) = some j := by
  rw [read, String.toList_ofList, text, readFrom_write hl j hj 0 (awaits_value []) delimited_nil,
    readFrom]
  rfl

end Json

end Scriptlet
