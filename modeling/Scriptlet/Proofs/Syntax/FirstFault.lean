import Mathlib.Order.Bounds.Defs
import Scriptlet.Proofs.Syntax.Viable

/-!
# Scriptlet.Proofs.Syntax.FirstFault

The parser reports the first fault of a source. Its tokens are read as far as they begin some
accepted source; what stands there decides the answer, whether it is a token, a fault of the
scanner or the end of the text.
-/

namespace Scriptlet

/-- How many tokens of a feed can be read before no accepted source begins with them. -/
def LongestViable (feed : Feed) (k : Nat) : Prop :=
  IsGreatest {n | n ≤ feed.tokens.length ∧ Viable (feed.kinds.take n)} k

theorem longestViable_of_passes {feed : Feed} {hs : List Goal}
    (h : Passes programGoals feed.tokens [] hs) : LongestViable feed feed.tokens.length := by
  obtain ⟨left, hleft, -⟩ := h
  constructor
  · refine ⟨Nat.le_refl _, viable_iff.2 ?_⟩
    rw [List.take_of_length_le (by simp [Feed.kinds]), Feed.kinds, hleft]
    rfl
  · rintro n ⟨hn, -⟩
    exact hn

theorem longestViable_of_refused {feed : Feed} {read rest : List Token} {t : Token}
    {left : List Goal} {d : Demand} (htokens : feed.tokens = read ++ t :: rest)
    (hpass : Passes programGoals read (t :: rest) left)
    (hd : demandOf left (some t.kind) = some d) (hne : d.kind ≠ t.kind) :
    LongestViable feed read.length := by
  have hkinds : feed.kinds = read.map Token.kind ++ t.kind :: rest.map Token.kind := by
    rw [Feed.kinds, htokens, List.map_append, List.map_cons]
  constructor
  · refine ⟨by rw [htokens]; simp, viable_iff.2 ?_⟩
    obtain ⟨now, hnow, -⟩ := hpass
    rw [hkinds, List.take_left' (by simp), hnow]
    rfl
  · rintro n ⟨-, hn⟩
    by_contra hlt
    obtain ⟨m, rfl⟩ : ∃ m, n = read.length + 1 + m := ⟨n - (read.length + 1), by omega⟩
    have htake : feed.kinds.take (read.length + 1 + m) =
        read.map Token.kind ++ t.kind :: (rest.map Token.kind).take m := by
      have hlength : (read.map Token.kind).length ≤ read.length + 1 + m := by
        rw [List.length_map]
        omega
      have hafter : read.length + 1 + m - (read.map Token.kind).length = m + 1 := by
        rw [List.length_map]
        omega
      rw [hkinds, List.take_append, List.take_of_length_le hlength, hafter, List.take_succ_cons]
    have hsome := viable_iff.1 hn
    rw [htake, Stops.consumeAll_eq_none hpass hd hne] at hsome
    cases hsome

/-- The answer to a source is decided by what stands after its longest viable beginning. -/
theorem parse_first_fault (source : String) :
    ∃ k, LongestViable (scan source) k ∧
      match (scan source).tokens[k]?, (scan source).fault? with
      | some t, _ =>
        ∃ found expected, parse source = .error (.unexpectedToken found expected t.position)
      | none, some fault => parse source = .error (.lexical fault) ∧ tokenize source = .error fault
      | none, none =>
        (∃ p, Derives (scan source).tokens p ∧ parse source = .ok p) ∨
          (¬ ∃ p, Derives (scan source).tokens p) ∧
            ∃ expected, parse source = .error (.unexpectedEnd expected) := by
  rcases parse_outcome source with ⟨ts, p, hts, hp, hparse⟩ | ⟨f, hstops, hparse⟩
  · have hlongest : LongestViable (scan source) ts.length := by
      rw [hts]
      exact longestViable_of_passes hp.passes
    refine ⟨ts.length, hlongest, ?_⟩
    rw [hts, List.getElem?_eq_none (Nat.le_refl _)]
    exact .inl ⟨p, hp, hparse⟩
  · cases hstops with
    | lexical hfault hpass =>
      refine ⟨_, longestViable_of_passes hpass, ?_⟩
      rw [List.getElem?_eq_none (Nat.le_refl _), hfault]
      refine ⟨hparse, ?_⟩
      rw [tokenize_eq, Feed.result, hfault]
    | @token read rest t left d htokens hpass hd hne =>
      refine ⟨read.length, longestViable_of_refused htokens hpass hd hne, ?_⟩
      have ht : (scan source).tokens[read.length]? = some t := by simp [htokens]
      rw [ht]
      exact ⟨_, _, hparse⟩
    | ending hfault hpass hd =>
      refine ⟨_, longestViable_of_passes hpass, ?_⟩
      rw [List.getElem?_eq_none (Nat.le_refl _), hfault]
      refine .inr ⟨?_, _, hparse⟩
      rintro ⟨p, hp⟩
      exact Stops.not_of_passes hfault hp.passes (.ending hfault hpass hd)

end Scriptlet
