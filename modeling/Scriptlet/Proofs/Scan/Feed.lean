import Scriptlet.Scanner

/-!
# Scriptlet.Proofs.Scan.Feed

What a scanner still has to give, seen as a whole:

* `Feed`          — tokens, and the fault that ends them, if one does.
* `Scanner.feed`  — what comes when the scanner is asked again and again.
* `scan source`   — what a source gives from its beginning.

The four lemmas `nextToken_finish`, `nextToken_fault`, `nextToken_emit` and `nextToken_skip` say
what one call does; `feed_step` says how the feed changes with it, and `tokenize_eq` that
collecting all tokens is reading off the feed of the source.
-/

namespace Scriptlet

structure Feed where
  tokens : List Token
  fault? : Option ScanFault
  deriving DecidableEq, Repr

namespace Feed

def kinds (f : Feed) : List Kind := f.tokens.map Token.kind

/-- The feed as a whole scan shows it. -/
def result (f : Feed) : Except ScanFault (List Token) :=
  match f.fault? with
  | none => .ok f.tokens
  | some fault => .error fault

theorem result_eq_ok_iff {f : Feed} {ts : List Token} : f.result = .ok ts ↔ f = ⟨ts, none⟩ := by
  obtain ⟨tokens, fault?⟩ := f
  cases fault? with
  | none => simp [result]
  | some fault => simp [result]

theorem result_eq_error_iff {f : Feed} {e : ScanFault} :
    f.result = .error e ↔ f.fault? = some e := by
  obtain ⟨tokens, fault?⟩ := f
  cases fault? with
  | none => simp [result]
  | some fault => simp [result]

end Feed

namespace Scanner

/-! ## One call -/

theorem nextToken_finish {s : Scanner} (h : s.rest = []) : s.nextToken = (.finish, s) := by
  unfold nextToken
  split
  · rw [h]
  · rename_i m hm
    rw [h, firstMatch_nil] at hm
    cases hm

theorem nextToken_fault {s : Scanner} {c : Char} {cs : List Char} (hc : s.rest = c :: cs)
    (hm : firstMatch s.rest = none) : s.nextToken = (.fault ⟨c, s.position⟩, s) := by
  unfold nextToken
  split
  · rw [hc]
  · rename_i m hm'
    rw [hm] at hm'
    cases hm'

theorem nextToken_emit {s : Scanner} {m : Match} {kind : Kind} (hm : firstMatch s.rest = some m)
    (hk : m.action = .emit kind) :
    s.nextToken = (.token ⟨kind, String.ofList m.piece, s.position⟩, s.pass m) := by
  unfold nextToken
  split
  · rename_i hm'
    rw [hm] at hm'
    cases hm'
  · rename_i m' hm'
    rw [hm] at hm'
    cases hm'
    rw [hk]

theorem nextToken_skip {s : Scanner} {m : Match} (hm : firstMatch s.rest = some m)
    (hk : m.action = .skip) : s.nextToken = (s.pass m).nextToken := by
  conv => lhs; unfold nextToken
  split
  · rename_i hm'
    rw [hm] at hm'
    cases hm'
  · rename_i m' hm'
    rw [hm] at hm'
    cases hm'
    rw [hk]

/-! ## All calls -/

def feed (s : Scanner) : Feed :=
  match _h : s.nextToken with
  | (.token t, s') => ⟨t :: s'.feed.tokens, s'.feed.fault?⟩
  | (.finish, _) => ⟨[], none⟩
  | (.fault f, _) => ⟨[], some f⟩
termination_by s.rest.length
decreasing_by all_goals exact nextToken_length_lt (by assumption)

/-- The feed by what the next call gives. -/
theorem feed_step (s : Scanner) :
    s.feed =
      match s.nextToken with
      | (.token t, s') => ⟨t :: s'.feed.tokens, s'.feed.fault?⟩
      | (.finish, _) => ⟨[], none⟩
      | (.fault f, _) => ⟨[], some f⟩ := by
  conv => lhs; unfold feed
  split <;> simp_all

theorem feed_token {s s' : Scanner} {t : Token} (h : s.nextToken = (.token t, s')) :
    s.feed = ⟨t :: s'.feed.tokens, s'.feed.fault?⟩ := by
  rw [feed_step, h]

theorem feed_finish {s s' : Scanner} (h : s.nextToken = (.finish, s')) : s.feed = ⟨[], none⟩ := by
  rw [feed_step, h]

theorem feed_fault {s s' : Scanner} {f : ScanFault} (h : s.nextToken = (.fault f, s')) :
    s.feed = ⟨[], some f⟩ := by
  rw [feed_step, h]

/-- Text that is passed over does not show in the feed. -/
theorem feed_eq_of_nextToken_eq {s s' : Scanner} (h : s.nextToken = s'.nextToken) :
    s.feed = s'.feed := by
  rw [feed_step, h, ← feed_step]

/-- The end of a text is found again at every further call. -/
theorem nextToken_finish_again {s s' : Scanner} (h : s.nextToken = (.finish, s')) :
    s'.nextToken = (.finish, s') := by
  fun_induction nextToken s with
  | case1 s hm hr =>
    cases h
    exact nextToken_finish hr
  | case2 => cases h
  | case3 => cases h
  | case4 s m hm hk ih => exact ih h

/-! ## Collecting -/

theorem collectFrom_fst (read : List Token) (s : Scanner) :
    (collectFrom read s).1 =
      (match s.feed.fault? with
      | none => .ok (read.reverse ++ s.feed.tokens)
      | some f => .error f) := by
  fun_induction collectFrom read s with
  | case1 read s t s' h ih =>
    have hn : s.nextToken = (.token t, s') := by
      unfold next at h
      split at h
      · cases h
      · exact h
    rw [ih, feed_token hn]
    simp
  | case2 read s s' h =>
    have hn : s.nextToken = (.finish, s') := by
      unfold next at h
      split at h
      · cases h
      · exact h
    rw [feed_finish hn]
    simp
  | case3 read s f s' h =>
    unfold next at h
    split at h
    · rename_i s'' hn
      cases h
      rw [feed_fault hn]
    · rename_i hf
      exact absurd h (hf f s')

end Scanner

/-- All that a source gives. -/
def scan (source : String) : Feed := (Scanner.start source.toList).feed

theorem tokenize_eq (source : String) : tokenize source = (scan source).result := by
  rw [tokenize, Scanner.collect, Scanner.collectFrom_fst]
  simp [Feed.result, scan]

theorem tokenize_eq_ok_iff {source : String} {ts : List Token} :
    tokenize source = .ok ts ↔ scan source = ⟨ts, none⟩ := by
  rw [tokenize_eq, Feed.result_eq_ok_iff]

theorem tokenize_eq_error_iff {source : String} {e : ScanFault} :
    tokenize source = .error e ↔ (scan source).fault? = some e := by
  rw [tokenize_eq, Feed.result_eq_error_iff]

end Scriptlet
