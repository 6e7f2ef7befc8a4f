import Scriptlet.Proofs.Scan.Feed

/-!
# Scriptlet.Proofs.Scan.Opening

Which rules a text can match, by its first character:

* `Pattern.opens p c`        — whether a text that begins with `c` may have a piece for `p`.
* `Pattern.allWords f g p`   — whether all words of `p` pass a check, spellings `f` and reserved
                               words `g`.
* `candidates c`             — the rules of the table that open with `c`, in order.

`firstMatch_cons` says that no other rule has to be looked at.
-/

namespace Scriptlet

def Pattern.opens : Pattern → Char → Bool
  | .blanks, c => isBlank c
  | .lineComment, c | .blockComment, c => c == '/'
  | .spelled ws, c | .reserved ws, c => ws.any fun w => w.toList.head? == some c
  | .digits, c => isDigit c
  | .quoted, c => (Quote.ofCharacter? c).isSome
  | .name, c => startsName c

def Pattern.allWords (spelled reserved : String → Bool) : Pattern → Bool
  | .spelled ws => ws.all spelled
  | .reserved ws => ws.all reserved
  | _ => true

def candidates (c : Char) : List Rule := rules.filter fun r => r.pattern.opens c

theorem cutSpelling_eq_none {ws : List String} {c : Char} {cs : List Char}
    (hp : ws.all (fun w => w ≠ "") = true)
    (h : (ws.any fun w => w.toList.head? == some c) = false) :
    cutSpelling ws (c :: cs) = none := by
  have hnone : (ws.find? fun w => w.toList.isPrefixOf (c :: cs)) = none := by
    rw [List.find?_eq_none]
    intro w hw hpre
    have hne : w ≠ "" := by simpa using List.all_eq_true.1 hp w hw
    have hhead : ¬ w.toList.head? = some c := by simpa using List.any_eq_false.1 h w hw
    cases hl : w.toList with
    | nil => exact hne (by simpa using hl)
    | cons d ds =>
      rw [hl] at hpre hhead
      have hd : d = c := by
        have : (d == c && ds.isPrefixOf cs) = true := hpre
        simp only [Bool.and_eq_true, beq_iff_eq] at this
        exact this.1
      exact hhead (by rw [hd]; rfl)
  rw [cutSpelling, hnone]

theorem Pattern.split?_eq_none {p : Pattern} {c : Char} {cs : List Char} (hp : p.proper = true)
    (h : p.opens c = false) : p.split? (c :: cs) = none := by
  cases p with
  | blanks => simp [Pattern.split?, cutRun, show isBlank c = false from h]
  | lineComment =>
    have hc : c ≠ '/' := by simpa [Pattern.opens] using h
    simp only [Pattern.split?]
    unfold cutLineComment
    split
    · rename_i heq
      exact absurd (List.cons.inj heq).1 hc
    · rfl
  | blockComment =>
    have hc : c ≠ '/' := by simpa [Pattern.opens] using h
    simp only [Pattern.split?]
    unfold cutBlockComment
    split
    · rename_i heq
      exact absurd (List.cons.inj heq).1 hc
    · rfl
  | spelled ws => exact cutSpelling_eq_none hp h
  | reserved ws => simp [Pattern.split?, cutReserved, cutSpelling_eq_none hp h]
  | digits => simp [Pattern.split?, cutRun, show isDigit c = false from h]
  | quoted =>
    have hq : Quote.ofCharacter? c = none := by simpa [Pattern.opens] using h
    simp [Pattern.split?, cutQuoted, hq]
  | name => simp [Pattern.split?, cutName, show startsName c = false from h]

theorem findSome?_filter_of_eq_none {α β : Type} {f : α → Option β} {p : α → Bool} {l : List α}
    (h : ∀ x ∈ l, p x = false → f x = none) : l.findSome? f = (l.filter p).findSome? f := by
  induction l with
  | nil => rfl
  | cons x l ih =>
    have hl := ih fun y hy => h y (List.mem_cons_of_mem x hy)
    cases hp : p x with
    | true => simp [hp, List.findSome?_cons, hl]
    | false => simp [hp, hl, h x List.mem_cons_self hp]

theorem firstMatch_cons (c : Char) (cs : List Char) :
    firstMatch (c :: cs) = (candidates c).findSome? fun r => r.match? (c :: cs) := by
  refine findSome?_filter_of_eq_none fun r _ hr => ?_
  rw [Rule.match?, Pattern.split?_eq_none r.proper hr]
  rfl

end Scriptlet
