import Scriptlet.Proofs.Json.RoundTrip
import Scriptlet.Proofs.Scan.Classes
import Scriptlet.Tree.Document

/-!
# Scriptlet.Proofs.Json.Indentation

The two texts of a JSON value, compared without what writes them:

* `Json.Region`     — whether a place in a text lies in a string, and there after a backslash.
* `Json.condense`   — a text without the blanks and line feeds outside its strings.
* `Json.openAfter`  — the brackets that are open after a text, the inner ones first.
* `Json.IsLine`     — a line of a text, given with the text before and after it.
* `Json.Laid`       — a text with its layout beside the same text without it.

`laid_write` goes through a value once, with the open brackets in place of the depth; what is said
about the texts of programs, `indentedText_layout`, follows by induction on `Laid`.
-/

namespace Scriptlet

namespace Json

/-! ## Reading a text for its layout -/

inductive Region where
  | outside
  | inside
  /-- In a string, after a backslash. -/
  | escaped
  deriving DecidableEq, Repr

def Region.next : Region → Char → Region
  | outside, c => if c = '"' then inside else outside
  | inside, c => if c = '"' then outside else if c = '\\' then escaped else inside
  | escaped, _ => inside

def condense : Region → List Char → List Char
  | _, [] => []
  | r, c :: cs =>
    if r = .outside ∧ (c = ' ' ∨ c = '\n') then condense r cs else c :: condense (r.next c) cs

def isOpening (c : Char) : Bool := c = '[' || c = '\x7b'

def isClosing (c : Char) : Bool := c = ']' || c = '\x7d'

/-- The open brackets after one more character. -/
def enclose (opened : List Char) (c : Char) : List Char :=
  if isOpening c then c :: opened else if isClosing c then opened.tail else opened

/-- The region and the open brackets after a text. Brackets in strings are none. -/
def outline : Region → List Char → List Char → Region × List Char
  | r, opened, [] => (r, opened)
  | r, opened, c :: cs =>
    outline (r.next c) (if r = .outside then enclose opened c else opened) cs

def openAfter (cs : List Char) : List Char := (outline .outside [] cs).2

structure IsLine (before line after : List Char) : Prop where
  starts : ∀ c ∈ before.getLast?, c = '\n'
  whole : '\n' ∉ line
  ends : ∀ c ∈ after.head?, c = '\n'

def indentation (line : List Char) : Nat := (line.takeWhile (· = ' ')).length

def unindented (line : List Char) : List Char := line.dropWhile (· = ' ')

/-- How many of the open brackets enclose a line. One that the line begins by closing does not. -/
def enclosing (opened line : List Char) : Nat :=
  if line.head?.any isClosing then opened.tail.length else opened.length

/-! ## Pieces without layout -/

/-- A piece that is kept as it is, and leads from some open brackets to others. -/
structure Solid (opened w opened' : List Char) : Prop where
  oneLine : '\n' ∉ w
  kept : ∀ rest, condense .outside (w ++ rest) = w ++ condense .outside rest
  leads : ∀ rest, outline .outside opened (w ++ rest) = outline .outside opened' rest

def isPlain (c : Char) : Bool := c ≠ '"' && c ≠ ' ' && c ≠ '\n'

theorem solid_character {c : Char} (hc : isPlain c = true) (opened : List Char) :
    Solid opened [c] (enclose opened c) := by
  simp only [isPlain, Bool.and_eq_true, decide_eq_true_eq] at hc
  obtain ⟨⟨hquote, hblank⟩, hline⟩ := hc
  refine ⟨by simpa using hline.symm, fun rest => ?_, fun rest => ?_⟩
  · simp [condense, Region.next, hquote, hblank, hline]
  · simp [outline, Region.next, hquote]

theorem Solid.append {o₁ o₂ o₃ v w : List Char} (hv : Solid o₁ v o₂) (hw : Solid o₂ w o₃) :
    Solid o₁ (v ++ w) o₃ := by
  refine ⟨fun hmem => ?_, fun rest => ?_, fun rest => ?_⟩
  · exact (List.mem_append.1 hmem).elim hv.oneLine hw.oneLine
  · rw [List.append_assoc, hv.kept, hw.kept, List.append_assoc]
  · rw [List.append_assoc, hv.leads, hw.leads]

/-- Whether a character belongs in a word or a number. -/
def isScalar (c : Char) : Bool := isPlain c && !isOpening c && !isClosing c

theorem solid_scalar {w : List Char} (hw : ∀ c ∈ w, isScalar c = true) (opened : List Char) :
    Solid opened w opened := by
  induction w with
  | nil => exact ⟨List.not_mem_nil, fun _ => rfl, fun _ => rfl⟩
  | cons c w ih =>
    rw [List.forall_mem_cons, isScalar, Bool.and_eq_true, Bool.and_eq_true, Bool.not_eq_true',
      Bool.not_eq_true'] at hw
    obtain ⟨⟨⟨hplain, hopening⟩, hclosing⟩, hrest⟩ := hw
    have hc := solid_character hplain opened
    rw [enclose, hopening, hclosing] at hc
    exact hc.append (ih hrest)

/-! ## Strings -/

/-- What may stand between the quotation marks of a string. -/
inductive Escaped : List Char → Prop where
  | nil : Escaped []
  | plain {c : Char} {w : List Char} : c ≠ '"' → c ≠ '\\' → c ≠ '\n' → Escaped w → Escaped (c :: w)
  | escape {c : Char} {w : List Char} : c ≠ '\n' → Escaped w → Escaped ('\\' :: c :: w)

theorem Escaped.append {v w : List Char} (hv : Escaped v) (hw : Escaped w) : Escaped (v ++ w) := by
  induction hv with
  | nil => exact hw
  | plain hquote hslash hline _ ih => exact .plain hquote hslash hline ih
  | escape hline _ ih => exact .escape hline ih

theorem escapeLetter?_ne {c letter : Char} (h : escapeLetter? c = some letter) : letter ≠ '\n' := by
  unfold escapeLetter? at h
  repeat' split at h
  all_goals first | (cases h; decide) | cases h

theorem escaped_hexDigit {n : Nat} (h : n < 16) {w : List Char} (hw : Escaped w) :
    Escaped (hexDigit n :: w) := by
  have hall : ∀ n < 16, hexDigit n ≠ '"' ∧ hexDigit n ≠ '\\' ∧ hexDigit n ≠ '\n' := by decide
  obtain ⟨hquote, hslash, hline⟩ := hall n h
  exact .plain hquote hslash hline hw

theorem escaped_escape (c : Char) : Escaped (escape c) := by
  unfold escape
  split
  · rename_i letter hletter
    exact .escape (escapeLetter?_ne hletter) .nil
  · rename_i hnone
    split
    · refine .escape (by decide) (escaped_hexDigit (n := 0) (by decide)
        (escaped_hexDigit (n := 0) (by decide) (escaped_hexDigit (by omega)
          (escaped_hexDigit (Nat.mod_lt _ (by decide)) .nil))))
    · refine .plain ?_ ?_ ?_ .nil
      all_goals
        rintro rfl
        cases hnone

theorem escaped_flatMap (cs : List Char) : Escaped (cs.flatMap escape) := by
  induction cs with
  | nil => exact .nil
  | cons c cs ih => exact (escaped_escape c).append ih

theorem Escaped.oneLine {w : List Char} (h : Escaped w) : '\n' ∉ w := by
  induction h with
  | nil => exact List.not_mem_nil
  | plain _ _ hline _ ih => simp [hline.symm, ih]
  | escape hline _ ih => simp [hline.symm, ih]

theorem Escaped.kept {w : List Char} (h : Escaped w) (rest : List Char) :
    condense .inside (w ++ rest) = w ++ condense .inside rest := by
  induction h with
  | nil => rfl
  | plain hquote hslash _ _ ih => simp [condense, Region.next, hquote, hslash, ih]
  | escape _ _ ih => simp [condense, Region.next, ih]

theorem Escaped.leads {w : List Char} (h : Escaped w) (opened rest : List Char) :
    outline .inside opened (w ++ rest) = outline .inside opened rest := by
  induction h with
  | nil => rfl
  | plain hquote hslash _ _ ih => simp [outline, Region.next, hquote, hslash, ih]
  | escape _ _ ih => simp [outline, Region.next, ih]

theorem solid_quoted (cs opened : List Char) : Solid opened (quoted cs) opened := by
  have hinner := escaped_flatMap cs
  refine ⟨by simp [quoted, hinner.oneLine], fun rest => ?_, fun rest => ?_⟩
  · simp [quoted, condense, Region.next, hinner.kept]
  · simp [quoted, outline, Region.next, hinner.leads, enclose, isOpening, isClosing]

/-! ## Numbers -/

theorem isScalar_of_isDigit {c : Char} (h : isDigit c = true) : isScalar c = true := by
  have hall : digitCharacters.all isScalar = true := by decide
  exact List.all_eq_true.1 hall c (mem_digits_of_isDigit h)

theorem isScalar_numeral {m : Numeral} (h : m.WellFormed) : ∀ c ∈ m.text, isScalar c = true := by
  have hdigits : ∀ ds : List Nat, (∀ d ∈ ds, d ∈ m.digits) →
      ∀ c ∈ digitChars ds, isScalar c = true := fun ds hds c hc =>
    isScalar_of_isDigit (isDigit_digitChars (fun d hd => h.digits d (hds d hd)) c hc)
  have hwhole := hdigits m.whole fun _ => List.mem_append_left _
  have hfraction := hdigits m.fraction fun _ => List.mem_append_right _
  intro c hc
  rw [Numeral.text, List.mem_append, List.mem_append] at hc
  rcases hc with hc | hc | hc
  · exact hwhole c hc
  · unfold Numeral.fractionText at hc
    split at hc
    · cases hc
    · rcases List.mem_cons.1 hc with rfl | hc
      · decide
      · exact hfraction c hc
  · cases hexp : m.exponent with
    | none =>
      rw [hexp] at hc
      cases hc
    | some e =>
      rw [hexp, Numeral.exponentText, List.mem_cons, List.mem_cons] at hc
      rcases hc with rfl | rfl | hc
      · decide
      · split <;> decide
      · exact isScalar_of_isDigit (isDigit_natText _ c hc)

theorem isScalar_numberText (x : Binary64) : ∀ c ∈ numberText x, isScalar c = true := by
  unfold numberText
  split
  · rename_i hx
    obtain ⟨m, hwell, htext, -⟩ := Binary64.exists_numeral hx
    intro c hc
    rw [Binary64.text, htext] at hc
    split at hc
    · rcases List.mem_cons.1 hc with rfl | hc
      · decide
      · exact isScalar_numeral hwell c hc
    · exact isScalar_numeral hwell c hc
  · exact List.all_eq_true.1 (by decide)

theorem numberText_ne_nil (x : Binary64) : numberText x ≠ [] := by
  unfold numberText
  split
  · rename_i hx
    obtain ⟨c, cs, htext, -⟩ := text_head hx
    simp [htext]
  · decide

/-! ## Layout beside no layout -/

/-- A text with its layout, from where some brackets are open, and the same text without it. -/
inductive Laid : List Char → List Char → List Char → Prop where
  | nil {opened : List Char} : Laid opened [] []
  | solid {opened opened' w cs ds : List Char} : Solid opened w opened' → Laid opened' cs ds →
      Laid opened (w ++ cs) (w ++ ds)
  | gap {opened cs ds : List Char} : Laid opened cs ds → Laid opened (' ' :: cs) ds
  | lineBreak {opened cs ds : List Char} : (∀ c ∈ cs.head?, c ≠ ' ') → Laid opened cs ds →
      Laid opened ('\n' :: (List.replicate (2 * enclosing opened cs) ' ' ++ cs)) ds

theorem condense_blanks (n : Nat) (cs : List Char) :
    condense .outside (List.replicate n ' ' ++ cs) = condense .outside cs := by
  induction n with
  | zero => rfl
  | succ n ih => simp [List.replicate_succ, condense, ih]

theorem Laid.condense_eq {opened cs ds : List Char} (h : Laid opened cs ds) :
    condense .outside cs = ds := by
  induction h with
  | nil => rfl
  | solid hw _ ih => rw [hw.kept, ih]
  | gap _ ih => simp [condense, ih]
  | lineBreak _ _ ih => simp [condense, condense_blanks, ih]

theorem outline_blanks (n : Nat) (opened cs : List Char) :
    outline .outside opened (List.replicate n ' ' ++ cs) = outline .outside opened cs := by
  induction n with
  | zero => rfl
  | succ n ih =>
    simp [List.replicate_succ, outline, Region.next, enclose, isOpening, isClosing, ih]

theorem outline_lineFeed (opened cs : List Char) :
    outline .outside opened ('\n' :: cs) = outline .outside opened cs := by
  simp [outline, Region.next, enclose, isOpening, isClosing]

theorem exists_before_lineFeed {w cs before rest : List Char} (hw : '\n' ∉ w)
    (h : w ++ cs = before ++ '\n' :: rest) :
    ∃ before', before = w ++ before' ∧ cs = before' ++ '\n' :: rest := by
  rcases List.append_eq_append_iff.1 h with ⟨before', rfl, rfl⟩ | ⟨v, rfl, hv⟩
  · exact ⟨before', rfl, rfl⟩
  · cases v with
    | nil => exact ⟨[], by simp, hv.symm⟩
    | cons c v =>
      obtain ⟨rfl, -⟩ := List.cons.inj hv
      exact absurd (List.mem_append_right before List.mem_cons_self) hw

theorem unindented_append {cs : List Char} (h : ∀ c ∈ cs.head?, c ≠ ' ') (n : Nat) :
    indentation (List.replicate n ' ' ++ cs) = n ∧
      unindented (List.replicate n ' ' ++ cs) = cs := by
  have hblanks : ∀ c ∈ List.replicate n ' ', (decide (c = ' ')) = true := by simp
  obtain ⟨htake, hdrop⟩ := span_append hblanks fun c hc => decide_eq_false (h c hc)
  rw [indentation, unindented, htake, hdrop]
  exact ⟨List.length_replicate, rfl⟩

/-- After each line feed come the blanks that the open brackets ask for. -/
theorem Laid.indents {opened cs ds before rest : List Char} (h : Laid opened cs ds)
    (hcs : cs = before ++ '\n' :: rest) :
    indentation rest = 2 * enclosing (outline .outside opened before).2 (unindented rest) := by
  induction h generalizing before with
  | nil => simp at hcs
  | solid hw _ ih =>
    obtain ⟨before', rfl, rfl⟩ := exists_before_lineFeed hw.oneLine hcs
    rw [hw.leads]
    exact ih rfl
  | @gap opened cs ds _ ih =>
    obtain ⟨before', rfl, rfl⟩ := exists_before_lineFeed (w := [' ']) (by decide) hcs
    rw [show [' '] = List.replicate 1 ' ' from rfl, outline_blanks]
    exact ih rfl
  | @lineBreak opened cs ds hhead _ ih =>
    cases before with
    | nil =>
      obtain rfl := (List.cons.inj hcs).2
      obtain ⟨hindentation, hunindented⟩ := unindented_append hhead (2 * enclosing opened cs)
      rw [hindentation, hunindented]
      rfl
    | cons c before =>
      obtain ⟨rfl, htail⟩ := List.cons.inj hcs
      have hblanks : '\n' ∉ List.replicate (2 * enclosing opened cs) ' ' := by simp
      obtain ⟨before', rfl, rfl⟩ := exists_before_lineFeed hblanks htail
      rw [outline_lineFeed, outline_blanks]
      exact ih rfl

/-! ## What is written -/

theorem laid_character {c : Char} {opened cs ds : List Char} (hc : isPlain c = true)
    (h : Laid (enclose opened c) cs ds) : Laid opened (c :: cs) (c :: ds) :=
  .solid (solid_character hc opened) h

/-- Before a closing bracket the line break is that of the text around the brackets. -/
theorem laid_closing {bracket c : Char} {opened cs ds : List Char} {depth : Nat}
    (hc : isPlain c = true) (hclosing : isClosing c = true) (hopening : isOpening c = false)
    (hdepth : opened.length = depth) (h : Laid opened cs ds) :
    Laid (bracket :: opened) (Layout.indented.lineBreak depth ++ c :: cs)
      (Layout.compact.lineBreak depth ++ c :: ds) := by
  have henclosing : enclosing (bracket :: opened) (c :: cs) = depth := by
    simp [enclosing, hclosing, hdepth]
  have hafter : enclose (bracket :: opened) c = opened := by simp [enclose, hclosing, hopening]
  have hlaid : Laid (bracket :: opened) (c :: cs) (c :: ds) := laid_character hc (by rwa [hafter])
  have hne : ∀ d ∈ (c :: cs).head?, d ≠ ' ' := by
    rintro d ⟨⟩ rfl
    cases hclosing
  have hbreak := Laid.lineBreak hne hlaid
  rwa [henclosing] at hbreak

/-- Whether a text begins as a value or a key does. -/
def StartsValue (cs : List Char) : Prop := ∃ c ∈ cs.head?, c ≠ ' ' ∧ isClosing c = false

theorem laid_lineBreak {opened cs ds : List Char} {depth : Nat} (hdepth : opened.length = depth)
    (hstart : StartsValue cs) (h : Laid opened cs ds) :
    Laid opened (Layout.indented.lineBreak depth ++ cs) (Layout.compact.lineBreak depth ++ ds) := by
  obtain ⟨c, hc, hne, hclosing⟩ := hstart
  have henclosing : enclosing opened cs = depth := by
    rw [Option.mem_def] at hc
    simp [enclosing, hc, hclosing, hdepth]
  have hbreak := Laid.lineBreak (fun d hd => by rwa [Option.mem_unique hd hc]) h
  rwa [henclosing] at hbreak

/-- A key, the colon after it and the blank before its value. -/
theorem laid_member {opened cs ds : List Char} {depth : Nat} (hdepth : opened.length = depth)
    (key : String) (h : Laid opened cs ds) :
    Laid opened
      (Layout.indented.lineBreak depth ++
        (quoted key.toList ++ ':' :: (Layout.indented.gap ++ cs)))
      (Layout.compact.lineBreak depth ++
        (quoted key.toList ++ ':' :: (Layout.compact.gap ++ ds))) := by
  refine laid_lineBreak hdepth ⟨'"', rfl, by decide, by decide⟩ ?_
  exact .solid (solid_quoted key.toList opened) (laid_character (by decide) (.gap h))

theorem startsValue_write (l : Layout) (depth : Nat) (j : Json) (following : List Char) :
    StartsValue (write l depth j following) := by
  cases j with
  | null => exact ⟨'n', by rw [write]; rfl, by decide, by decide⟩
  | boolean b => cases b with
    | true => exact ⟨'t', by rw [write]; rfl, by decide, by decide⟩
    | false => exact ⟨'f', by rw [write]; rfl, by decide, by decide⟩
  | number x =>
    obtain ⟨c, w, hw⟩ := List.exists_cons_of_ne_nil (numberText_ne_nil x)
    have hc := isScalar_numberText x c (by simp [hw])
    simp only [isScalar, isPlain, Bool.and_eq_true, decide_eq_true_eq, Bool.not_eq_true'] at hc
    exact ⟨c, by rw [write, hw]; rfl, hc.1.1.1.2, hc.2⟩
  | string s => exact ⟨'"', by rw [write]; rfl, by decide, by decide⟩
  | array xs => cases xs with
    | nil => exact ⟨'[', by rw [write]; rfl, by decide, by decide⟩
    | cons x xs => exact ⟨'[', by rw [write]; rfl, by decide, by decide⟩
  | object ms => cases ms with
    | nil => exact ⟨'\x7b', by rw [write]; rfl, by decide, by decide⟩
    | cons m ms => exact ⟨'\x7b', by rw [write]; rfl, by decide, by decide⟩

mutual

theorem laid_write (j : Json) {opened : List Char} {depth : Nat} (hdepth : opened.length = depth)
    {cs ds : List Char} (h : Laid opened cs ds) :
    Laid opened (write .indented depth j cs) (write .compact depth j ds) := by
  cases j with
  | null =>
    rw [write, write]
    exact .solid (solid_scalar (List.all_eq_true.1 (by decide)) opened) h
  | boolean b =>
    cases b with
    | true =>
      rw [write, write]
      exact .solid (solid_scalar (List.all_eq_true.1 (by decide)) opened) h
    | false =>
      rw [write, write]
      exact .solid (solid_scalar (List.all_eq_true.1 (by decide)) opened) h
  | number x =>
    rw [write, write]
    exact .solid (solid_scalar (isScalar_numberText x) opened) h
  | string s =>
    rw [write, write]
    exact .solid (solid_quoted s.toList opened) h
  | array xs =>
    cases xs with
    | nil =>
      rw [write, write]
      exact laid_character (by decide) (laid_character (by decide) h)
    | cons x xs =>
      have hinner : (enclose opened '[').length = depth + 1 := congrArg (· + 1) hdepth
      rw [write, write]
      refine laid_character (by decide) (laid_lineBreak hinner (startsValue_write _ _ _ _) ?_)
      refine laid_write x hinner (laid_writeItems xs hinner ?_)
      exact laid_closing (by decide) (by decide) (by decide) hdepth h
  | object ms =>
    cases ms with
    | nil =>
      rw [write, write]
      exact laid_character (by decide) (laid_character (by decide) h)
    | cons m ms =>
      obtain ⟨k, x⟩ := m
      have hinner : (enclose opened '\x7b').length = depth + 1 := congrArg (· + 1) hdepth
      rw [write, write]
      refine laid_character (by decide) (laid_member hinner k ?_)
      refine laid_write x hinner (laid_writeMembers ms hinner ?_)
      exact laid_closing (by decide) (by decide) (by decide) hdepth h

theorem laid_writeItems (xs : List Json) {opened : List Char} {depth : Nat}
    (hdepth : opened.length = depth) {cs ds : List Char} (h : Laid opened cs ds) :
    Laid opened (writeItems .indented depth xs cs) (writeItems .compact depth xs ds) := by
  cases xs with
  | nil => rwa [writeItems, writeItems]
  | cons x xs =>
    rw [writeItems, writeItems]
    refine laid_character (by decide) (laid_lineBreak hdepth (startsValue_write _ _ _ _) ?_)
    exact laid_write x hdepth (laid_writeItems xs hdepth h)

theorem laid_writeMembers (ms : List (String × Json)) {opened : List Char} {depth : Nat}
    (hdepth : opened.length = depth) {cs ds : List Char} (h : Laid opened cs ds) :
    Laid opened (writeMembers .indented depth ms cs) (writeMembers .compact depth ms ds) := by
  cases ms with
  | nil => rwa [writeMembers, writeMembers]
  | cons m ms =>
    obtain ⟨k, x⟩ := m
    rw [writeMembers, writeMembers]
    refine laid_character (by decide) (laid_member hdepth k ?_)
    exact laid_write x hdepth (laid_writeMembers ms hdepth h)

end

theorem laid_text (j : Json) : Laid [] (j.text .indented) (j.text .compact) :=
  laid_write j rfl .nil

/-! ## Lines -/

theorem outline_append (r : Region) (opened cs ds : List Char) :
    outline r opened (cs ++ ds) = outline (outline r opened cs).1 (outline r opened cs).2 ds := by
  induction cs generalizing r opened with
  | nil => rfl
  | cons c cs ih => exact ih _ _

/-- A line feed opens and closes nothing, in a string or not. -/
theorem outline_concat_lineFeed (r : Region) (opened cs : List Char) :
    (outline r opened (cs ++ ['\n'])).2 = (outline r opened cs).2 := by
  rw [outline_append]
  simp [outline, enclose, isOpening, isClosing]

theorem indentation_append {line after : List Char} (h : ∀ c ∈ after.head?, c = '\n') :
    indentation (line ++ after) = indentation line ∧
      ∀ opened, enclosing opened (unindented (line ++ after)) =
        enclosing opened (unindented line) := by
  induction line with
  | nil =>
    cases after with
    | nil => simp
    | cons c after =>
      obtain rfl := h c rfl
      simp [indentation, unindented, enclosing, isClosing]
  | cons c line ih =>
    by_cases hc : c = ' '
    · simpa [indentation, unindented, hc] using ih
    · simp [indentation, unindented, enclosing, hc]

theorem indentation_line {j : Json} {before line after : List Char}
    (htext : j.text .indented = before ++ (line ++ after)) (hline : IsLine before line after) :
    indentation line = 2 * enclosing (openAfter before) (unindented line) := by
  obtain ⟨hstarts, -, hends⟩ := hline
  -- The first line stands as if a line feed came before it.
  have hlaid : Laid [] ('\n' :: j.text .indented) (j.text .compact) := by
    obtain ⟨c, hc, hne, -⟩ := startsValue_write .indented 0 j []
    have hhead : ∀ d ∈ (j.text .indented).head?, d ≠ ' ' := fun d hd => by
      rwa [Option.mem_unique hd hc]
    have hbreak := Laid.lineBreak hhead (laid_text j)
    have hzero : enclosing [] (j.text .indented) = 0 := by simp [enclosing]
    rwa [hzero] at hbreak
  obtain ⟨b, hb⟩ : ∃ b, '\n' :: before = b ++ ['\n'] := by
    rcases List.eq_nil_or_concat before with rfl | ⟨v, c, rfl⟩
    · exact ⟨[], rfl⟩
    · obtain rfl := hstarts c (by simp)
      exact ⟨'\n' :: v, by simp⟩
  have hsplit : '\n' :: j.text .indented = b ++ '\n' :: (line ++ after) := by
    rw [htext, ← List.cons_append, hb, List.append_assoc]
    rfl
  have hopened : (outline .outside [] b).2 = openAfter before := by
    rw [← outline_concat_lineFeed, ← hb, outline_lineFeed, openAfter]
  have hindents := hlaid.indents hsplit
  obtain ⟨hindentation, henclosing⟩ :
      indentation (line ++ after) = indentation line ∧ _ := indentation_append hends
  rwa [hindentation, henclosing, hopened] at hindents

end Json

open Json

/-- Without the blanks and line feeds outside its strings the indented text of a program is its
compact text, and each line of it is indented by two blanks for each array and object that is open
where the line begins and is not closed by its first character. -/
theorem indentedText_layout (p : Program) :
    condense .outside p.indentedText.toList = p.compactText.toList ∧
      ∀ before line after, p.indentedText.toList = before ++ (line ++ after) →
        IsLine before line after →
        indentation line = 2 * enclosing (openAfter before) (unindented line) := by
  have hindented : p.indentedText.toList = p.document.text .indented := String.toList_ofList
  have hcompact : p.compactText.toList = p.document.text .compact := String.toList_ofList
  rw [hindented, hcompact]
  exact ⟨(laid_text p.document).condense_eq, fun _ _ _ => indentation_line⟩

/-- A string with a quotation mark, a blank, a bracket and a line feed in it. -/
def bracketProgram : Program := ⟨[.expression (.string "\" [\n")]⟩

/-- The line after the string closes the list of statements: it is indented by two blanks, and the
bracket in the string is not open before it. -/
theorem indentedText_layout_bracket :
    ∃ before after, bracketProgram.indentedText.toList = before ++ ([' ', ' ', ']'] ++ after) ∧
      IsLine before [' ', ' ', ']'] after ∧ openAfter before = ['[', '\x7b'] ∧
      indentation [' ', ' ', ']'] =
        2 * enclosing (openAfter before) (unindented [' ', ' ', ']']) := by
  let text := bracketProgram.document.text .indented
  have hindented : bracketProgram.indentedText.toList = text := String.toList_ofList
  have hsplit : text = text.take 108 ++ ([' ', ' ', ']'] ++ text.drop 111) := by decide +kernel
  have hbefore : (text.take 108).getLast? = some '\n' := by decide +kernel
  have hafter : (text.drop 111).head? = some '\n' := by decide +kernel
  have hline : IsLine (text.take 108) [' ', ' ', ']'] (text.drop 111) := by
    refine ⟨?_, by decide, ?_⟩
    · rw [hbefore]
      simp
    · rw [hafter]
      simp
  have htext := hindented.trans hsplit
  exact ⟨_, _, htext, hline, by decide +kernel,
    (indentedText_layout bracketProgram).2 _ _ _ htext hline⟩

end Scriptlet
