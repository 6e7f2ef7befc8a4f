/-!
# Scriptlet.Token.Quote

The three delimiters of string literals. `Quote.opening?` is the style in which a text opens,
`Quote.unquote?` the text between its delimiters, kept character for character.
`unquote?_eq_some_iff` says that exactly the texts with the same delimiter at both ends have one.
-/

namespace Scriptlet

inductive Quote where
  | double
  | single
  | backtick
  deriving DecidableEq, Repr

namespace Quote

def all : List Quote := [double, single, backtick]

def name : Quote → String
  | double => "Double"
  | single => "Single"
  | backtick => "Backtick"

def character : Quote → Char
  | double => '"'
  | single => '\''
  | backtick => '\x60'

def ofCharacter? (c : Char) : Option Quote := all.find? fun q => q.character == c

def opening? : List Char → Option Quote
  | [] => none
  | c :: _ => ofCharacter? c

/-- The text between two delimiters; a delimiter alone is no quoted text. -/
def unquote? : List Char → Option (List Char)
  | [] => none
  | c :: rest =>
    match ofCharacter? c, rest.getLast? with
    | some _, some d => if d = c then some rest.dropLast else none
    | _, _ => none

theorem ofCharacter?_character (q : Quote) : ofCharacter? q.character = some q := by
  cases q <;> decide

theorem character_of_ofCharacter? {c : Char} {q : Quote} (h : ofCharacter? c = some q) :
    q.character = c := by
  simpa using List.find?_some h

/-- A text opens in a style exactly if it begins with the delimiter of that style. -/
theorem ofCharacter?_eq_some_iff {c : Char} {q : Quote} :
    ofCharacter? c = some q ↔ c = q.character :=
  ⟨fun h => (character_of_ofCharacter? h).symm, fun h => h ▸ ofCharacter?_character q⟩

theorem unquote?_eq_some_iff {cs inner : List Char} :
    unquote? cs = some inner ↔ ∃ q : Quote, cs = q.character :: inner ++ [q.character] := by
  constructor
  · intro h
    cases cs with
    | nil => simp [unquote?] at h
    | cons c rest =>
      simp only [unquote?] at h
      split at h
      · rename_i q d hq hd
        split at h
        · rename_i hdc
          cases h
          obtain ⟨ys, hys⟩ := List.getLast?_eq_some_iff.1 hd
          refine ⟨q, ?_⟩
          rw [character_of_ofCharacter? hq, hys]
          simp [hdc]
        · cases h
      · cases h
  · rintro ⟨q, rfl⟩
    simp [unquote?, ofCharacter?_character]

end Quote

end Scriptlet
