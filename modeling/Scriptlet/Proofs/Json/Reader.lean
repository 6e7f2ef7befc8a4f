import Scriptlet.Json.Basic
import Scriptlet.Json.Quoted
import Scriptlet.Proofs.Number.Decimal

/-!
# Scriptlet.Proofs.Json.Reader

A reader of JSON texts, apart from everything that writes them:

* `Json.readCharacter`  — a character of a string, by itself or by an escape, of which two may
                          stand for one character beyond `0xffff`.
* `Json.readNumber`     — a number, as the binary64 that is nearest to it and has its sign.
* `Json.readScaled`     — a number as it is written, without rounding.
* `Json.readSymbol`     — a structural character, a word, a number or a string.
* `Json.Stage`, `Json.step`  — what may come next, and what a symbol makes of it; the arrays and
                          objects around are a stack of frames.
* `Json.read`           — the value of a text. Texts that are not well-formed have none.

Members of an object keep their order, and each of them is kept.
-/

namespace Scriptlet

/-- A sign, and a natural number times a power of ten. -/
structure Scaled where
  negative : Bool
  coefficient : Nat
  power : Int
  deriving DecidableEq, Repr

/-- The binary64 nearest to a decimal, with a sign. -/
def Binary64.ofDecimal (negative : Bool) (n : Nat) (power : Int) : Binary64 :=
  ⟨UInt64.ofNat (nearestDecimal n power + if negative then pow2 63 else 0)⟩

namespace Json

def isSpace (c : Char) : Bool := c = ' ' || c = '\t' || c = '\n' || c = '\r'

/-! ## Strings -/

def hexValue? (c : Char) : Option Nat :=
  if isDigit c then some (digitValue c)
  else if 'a' ≤ c && c ≤ 'f' then some (c.toNat - 'a'.toNat + 10)
  else if 'A' ≤ c && c ≤ 'F' then some (c.toNat - 'A'.toNat + 10)
  else none

def readHex : List Char → Option (Nat × List Char)
  | a :: b :: c :: d :: rest =>
    match hexValue? a, hexValue? b, hexValue? c, hexValue? d with
    | some w, some x, some y, some z => some (((w * 16 + x) * 16 + y) * 16 + z, rest)
    | _, _, _, _ => none
  | _ => none

def isHighSurrogate (n : Nat) : Bool := 0xd800 ≤ n && n < 0xdc00

def isLowSurrogate (n : Nat) : Bool := 0xdc00 ≤ n && n < 0xe000

/-- The other half of a character of which the first half is `high`. -/
def readLow (high : Nat) : List Char → Option (Char × List Char)
  | '\\' :: 'u' :: cs =>
    match readHex cs with
    | some (low, rest) =>
      if isLowSurrogate low then
        some (Char.ofNat (0x10000 + (high - 0xd800) * 0x400 + (low - 0xdc00)), rest)
      else none
    | none => none
  | _ => none

def readUnicode (cs : List Char) : Option (Char × List Char) :=
  match readHex cs with
  | some (n, rest) =>
    if isHighSurrogate n then readLow n rest
    else if isLowSurrogate n then none
    else some (Char.ofNat n, rest)
  | none => none

/-- The character that a letter after a backslash stands for. -/
def unescape? (c : Char) : Option Char :=
  if c = '"' then some '"'
  else if c = '\\' then some '\\'
  else if c = '/' then some '/'
  else if c = 'b' then some '\x08'
  else if c = 'f' then some '\x0c'
  else if c = 'n' then some '\n'
  else if c = 'r' then some '\r'
  else if c = 't' then some '\t'
  else none

def readEscape : List Char → Option (Char × List Char)
  | [] => none
  | c :: cs => if c = 'u' then readUnicode cs else (unescape? c).map fun d => (d, cs)

def readCharacter : List Char → Option (Char × List Char)
  | [] => none
  | c :: cs =>
    if c = '\\' then readEscape cs
    else if c = '"' || c.toNat < 0x20 then none
    else some (c, cs)

theorem readHex_length {cs rest : List Char} {n : Nat} (h : readHex cs = some (n, rest)) :
    rest.length ≤ cs.length := by
  unfold readHex at h
  split at h
  · split at h
    · cases h
      simp only [List.length_cons]
      omega
    · cases h
  · cases h

theorem readLow_length {cs rest : List Char} {high : Nat} {c : Char}
    (h : readLow high cs = some (c, rest)) : rest.length ≤ cs.length := by
  unfold readLow at h
  split at h
  · split at h
    · rename_i hread
      have := readHex_length hread
      split at h
      · obtain ⟨-, rfl⟩ := Prod.mk.inj (Option.some.inj h)
        simp only [List.length_cons]
        omega
      · cases h
    · cases h
  · cases h

theorem readUnicode_length {cs rest : List Char} {c : Char}
    (h : readUnicode cs = some (c, rest)) : rest.length ≤ cs.length := by
  unfold readUnicode at h
  split at h
  · rename_i hread
    have := readHex_length hread
    split at h
    · exact Nat.le_trans (readLow_length h) this
    · split at h
      · cases h
      · cases h
        exact this
  · cases h

theorem readCharacter_length {cs rest : List Char} {c : Char}
    (h : readCharacter cs = some (c, rest)) : rest.length < cs.length := by
  cases cs with
  | nil => cases h
  | cons d cs =>
    rw [List.length_cons, Nat.lt_succ_iff]
    rw [readCharacter] at h
    split at h
    · cases cs with
      | nil => cases h
      | cons e cs =>
        rw [readEscape] at h
        split at h
        · exact Nat.le_succ_of_le (readUnicode_length h)
        · obtain ⟨_, -, heq⟩ := Option.map_eq_some_iff.1 h
          cases heq
          exact Nat.le_succ _
    · split at h
      · cases h
      · cases h
        exact Nat.le_refl _

/-- The characters of a string up to its closing quotation mark, which is passed. -/
def readCharacters (cs : List Char) : Option (List Char × List Char) :=
  match cs with
  | [] => none
  | c :: cs =>
    if c = '"' then some ([], cs)
    else
      match _h : readCharacter (c :: cs) with
      | some (d, rest) => (readCharacters rest).map fun x => (d :: x.1, x.2)
      | none => none
termination_by cs.length
decreasing_by exact readCharacter_length _h

theorem readCharacters_length {cs inner rest : List Char}
    (h : readCharacters cs = some (inner, rest)) : rest.length < cs.length := by
  fun_induction readCharacters cs generalizing inner rest with
  | case1 => cases h
  | case2 =>
    cases h
    simp
  | case3 c cs hc d after hread ih =>
    have hlength := readCharacter_length hread
    obtain ⟨x, hx, heq⟩ := Option.map_eq_some_iff.1 h
    cases heq
    exact Nat.lt_trans (ih hx) hlength
  | case4 => cases h

/-! ## Numbers -/

def digitsOf (cs : List Char) : List Char := cs.takeWhile isDigit

def afterDigits (cs : List Char) : List Char := cs.dropWhile isDigit

theorem afterDigits_length (cs : List Char) : (afterDigits cs).length ≤ cs.length :=
  (List.dropWhile_suffix isDigit).length_le

def readSign (cs : List Char) : Bool × List Char :=
  match cs with
  | '-' :: rest => (true, rest)
  | _ => (false, cs)

/-- Digits, of which there is one at least, and the first is zero only if there is no other. -/
def isWhole (ds : List Char) : Bool := !ds.isEmpty && (ds.length = 1 || ds.head? != some '0')

def readFraction (cs : List Char) : Option (List Char × List Char) :=
  match cs with
  | '.' :: rest => if (digitsOf rest).isEmpty then none else some (digitsOf rest, afterDigits rest)
  | _ => some ([], cs)

def readExponent (cs : List Char) : Option (Int × List Char) :=
  let natural (sign : Int) (rest : List Char) :=
    if (digitsOf rest).isEmpty then none
    else some (sign * ofDigits ((digitsOf rest).map digitValue), afterDigits rest)
  match cs with
  | [] => some (0, [])
  | c :: rest =>
    if c = 'e' || c = 'E' then
      match rest with
      | '+' :: rest => natural 1 rest
      | '-' :: rest => natural (-1) rest
      | _ => natural 1 rest
    else some (0, cs)

def readNumber (cs : List Char) : Option (Binary64 × List Char) :=
  let whole := digitsOf (readSign cs).2
  if isWhole whole then
    match readFraction (afterDigits (readSign cs).2) with
    | some (part, rest) =>
      match readExponent rest with
      | some (exponent, rest) =>
        some (.ofDecimal (readSign cs).1 (ofDigits ((whole ++ part).map digitValue))
          (exponent - part.length), rest)
      | none => none
    | none => none
  else none

def readScaled (cs : List Char) : Option (Scaled × List Char) :=
  let whole := digitsOf (readSign cs).2
  if isWhole whole then
    (readFraction (afterDigits (readSign cs).2)).bind fun (part, rest) =>
      (readExponent rest).map fun (exponent, rest) =>
        (⟨(readSign cs).1, ofDigits ((whole ++ part).map digitValue), exponent - part.length⟩, rest)
  else none

/-- Reading a number is reading it as it is written, and rounding. -/
theorem readNumber_eq (cs : List Char) : readNumber cs =
    (readScaled cs).map fun x => (.ofDecimal x.1.negative x.1.coefficient x.1.power, x.2) := by
  simp only [readNumber, readScaled]
  split
  · cases readFraction (afterDigits (readSign cs).2) with
    | none => rfl
    | some x =>
      obtain ⟨part, rest⟩ := x
      cases hexponent : readExponent rest <;> simp [hexponent]
  · rfl

theorem readSign_length (cs : List Char) : (readSign cs).2.length ≤ cs.length := by
  unfold readSign
  split <;> simp

theorem readFraction_length {cs part rest : List Char}
    (h : readFraction cs = some (part, rest)) : rest.length ≤ cs.length := by
  unfold readFraction at h
  split at h
  · split at h
    · cases h
    · cases h
      exact Nat.le_succ_of_le (afterDigits_length _)
  · cases h
    exact Nat.le_refl _

theorem readExponent_length {cs rest : List Char} {e : Int}
    (h : readExponent cs = some (e, rest)) : rest.length ≤ cs.length := by
  have natural : ∀ {sign : Int} {ds : List Char}, (if (digitsOf ds).isEmpty then none
      else some (sign * ofDigits ((digitsOf ds).map digitValue), afterDigits ds)) = some (e, rest) →
      rest.length ≤ ds.length := by
    intro sign ds hds
    split at hds
    · cases hds
    · cases hds
      exact afterDigits_length _
  simp only [readExponent] at h
  split at h
  · cases h
    exact Nat.le_refl _
  · split at h
    · split at h
      · exact Nat.le_succ_of_le (Nat.le_succ_of_le (natural h))
      · exact Nat.le_succ_of_le (Nat.le_succ_of_le (natural h))
      · exact Nat.le_succ_of_le (natural h)
    · cases h
      exact Nat.le_refl _

theorem readNumber_length {cs rest : List Char} {x : Binary64}
    (h : readNumber cs = some (x, rest)) : rest.length < cs.length := by
  simp only [readNumber] at h
  split at h
  · rename_i hwhole
    split at h
    · rename_i part after hpart
      split at h
      · rename_i exponent after' hexponent
        cases h
        have hdigits := congrArg List.length
          (List.takeWhile_append_dropWhile (p := isDigit) (l := (readSign cs).2))
        have hne : (digitsOf (readSign cs).2).length ≠ 0 := by
          simp only [isWhole, Bool.and_eq_true, Bool.not_eq_true',
            List.isEmpty_eq_false_iff] at hwhole
          simpa using hwhole.1
        have hsign := readSign_length cs
        have hfraction := readFraction_length hpart
        have hrest := readExponent_length hexponent
        simp only [List.length_append, digitsOf, afterDigits] at hdigits hne hfraction
        omega
      · cases h
    · cases h
  · cases h

/-! ## Symbols -/

inductive Symbol where
  | openArray
  | closeArray
  | openObject
  | closeObject
  | comma
  | colon
  | scalar (value : Json)

def structural? (c : Char) : Option Symbol :=
  if c = '[' then some .openArray
  else if c = ']' then some .closeArray
  else if c = '\x7b' then some .openObject
  else if c = '\x7d' then some .closeObject
  else if c = ',' then some .comma
  else if c = ':' then some .colon
  else none

/-- A value that is a word. -/
def readWord : List Char → Option (Json × List Char)
  | 'n' :: 'u' :: 'l' :: 'l' :: rest => some (.null, rest)
  | 't' :: 'r' :: 'u' :: 'e' :: rest => some (.boolean true, rest)
  | 'f' :: 'a' :: 'l' :: 's' :: 'e' :: rest => some (.boolean false, rest)
  | _ => none

def readScalar (cs : List Char) : Option (Json × List Char) :=
  match cs with
  | '"' :: rest => (readCharacters rest).map fun x => (.string (String.ofList x.1), x.2)
  | _ =>
    match readWord cs with
    | some x => some x
    | none => (readNumber cs).map fun x => (.number x.1, x.2)

def readSymbol : List Char → Option (Symbol × List Char)
  | [] => none
  | c :: cs =>
    match structural? c with
    | some s => some (s, cs)
    | none => (readScalar (c :: cs)).map fun x => (.scalar x.1, x.2)

theorem readScalar_length {cs rest : List Char} {j : Json}
    (h : readScalar cs = some (j, rest)) : rest.length < cs.length := by
  unfold readScalar at h
  split at h
  · obtain ⟨⟨inner, after⟩, hx, heq⟩ := Option.map_eq_some_iff.1 h
    cases heq
    exact Nat.lt_succ_of_lt (readCharacters_length hx)
  · split at h
    · rename_i x hx
      cases h
      unfold readWord at hx
      split at hx <;> cases hx <;> simp only [List.length_cons] <;> omega
    · obtain ⟨⟨x, after⟩, hx, heq⟩ := Option.map_eq_some_iff.1 h
      cases heq
      exact readNumber_length hx

theorem readSymbol_length {cs rest : List Char} {s : Symbol}
    (h : readSymbol cs = some (s, rest)) : rest.length < cs.length := by
  unfold readSymbol at h
  split at h
  · cases h
  · split at h
    · cases h
      simp
    · obtain ⟨⟨j, after⟩, hx, heq⟩ := Option.map_eq_some_iff.1 h
      cases heq
      exact readScalar_length hx

/-! ## Values -/

/-- An array or object that is not yet complete, with what was read of it in reverse. -/
inductive Frame where
  | items (before : List Json)
  | members (before : List (String × Json)) (key : String)

inductive Stage where
  | value
  /-- A value or the end of an array. -/
  | firstItem
  /-- A key or the end of an object. -/
  | firstKey
  | key (before : List (String × Json))
  | colon (before : List (String × Json)) (key : String)
  | after (value : Json)

structure Config where
  frames : List Frame
  stage : Stage

/-- The beginning of a value. -/
def enter (fs : List Frame) : Symbol → Option Config
  | .openArray => some ⟨fs, .firstItem⟩
  | .openObject => some ⟨fs, .firstKey⟩
  | .scalar j => some ⟨fs, .after j⟩
  | _ => none

def step : Config → Symbol → Option Config
  | ⟨fs, .value⟩, s => enter fs s
  | ⟨fs, .firstItem⟩, .closeArray => some ⟨fs, .after (.array [])⟩
  | ⟨fs, .firstItem⟩, s => enter (.items [] :: fs) s
  | ⟨fs, .firstKey⟩, .closeObject => some ⟨fs, .after (.object [])⟩
  | ⟨fs, .firstKey⟩, .scalar (.string k) => some ⟨fs, .colon [] k⟩
  | ⟨fs, .key ms⟩, .scalar (.string k) => some ⟨fs, .colon ms k⟩
  | ⟨fs, .colon ms k⟩, .colon => some ⟨.members ms k :: fs, .value⟩
  | ⟨.items xs :: fs, .after j⟩, .comma => some ⟨.items (j :: xs) :: fs, .value⟩
  | ⟨.items xs :: fs, .after j⟩, .closeArray => some ⟨fs, .after (.array (j :: xs).reverse)⟩
  | ⟨.members ms k :: fs, .after j⟩, .comma => some ⟨fs, .key ((k, j) :: ms)⟩
  | ⟨.members ms k :: fs, .after j⟩, .closeObject =>
    some ⟨fs, .after (.object ((k, j) :: ms).reverse)⟩
  | _, _ => none

def finish : Config → Option Json
  | ⟨[], .after j⟩ => some j
  | _ => none

/-- The rest of a text, from a stage on. -/
def readFrom (x : Config) (cs : List Char) : Option Json :=
  match cs with
  | [] => finish x
  | c :: cs =>
    if isSpace c then readFrom x cs
    else
      match _h : readSymbol (c :: cs) with
      | some (s, rest) => (step x s).bind fun y => readFrom y rest
      | none => none
termination_by cs.length
decreasing_by
  · simp
  · exact readSymbol_length _h

def read (text : String) : Option Json := readFrom ⟨[], .value⟩ text.toList

theorem readFrom_space {c : Char} (hc : isSpace c = true) (x : Config) (cs : List Char) :
    readFrom x (c :: cs) = readFrom x cs := by
  rw [readFrom, if_pos hc]

theorem readFrom_spaces {w : List Char} (hw : ∀ c ∈ w, isSpace c = true) (x : Config)
    (cs : List Char) : readFrom x (w ++ cs) = readFrom x cs := by
  induction w with
  | nil => rfl
  | cons c w ih =>
    rw [List.forall_mem_cons] at hw
    rw [List.cons_append, readFrom_space hw.1, ih hw.2]

theorem readFrom_symbol {cs rest : List Char} {s : Symbol}
    (hc : ∀ c ∈ cs.head?, isSpace c = false) (h : readSymbol cs = some (s, rest)) (x : Config) :
    readFrom x cs = (step x s).bind fun y => readFrom y rest := by
  cases cs with
  | nil => cases h
  | cons c cs =>
    rw [readFrom, if_neg (by simp [hc c rfl])]
    split
    · rename_i hread
      rw [h] at hread
      cases hread
      rfl
    · rename_i hread
      rw [h] at hread
      cases hread

end Json

end Scriptlet
