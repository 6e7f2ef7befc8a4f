import Scriptlet.Proofs.Scan.Feed

/-!
# Scriptlet.Proofs.Scan.History

Scanners that are asked in any order:

* `Call`, `Answer`     — what a scanner may be asked, and what it says.
* `Scanner.called s c` — the scanner that a call is made on, after it. A call on a copy leaves the
                         scanner itself as it is (`Scanner.after`).
* `Session`            — a scanner with its text, the tokens it gave since it got that text, and
                         whether a fault has ended a pass over it.
* `Session.Faithful`   — the invariant of all histories: scanner, text and tokens belong together.

A pass that ends at a fault moves the scanner to the end of its text but leaves its position behind,
so the position belongs to the text that was read only in sessions that are not broken.
`Session.faithful_run` is the invariant after any calls. What outlasts a call is stated for one call
and then for all calls of its kind: a fault comes again (`run_of_stuck`), and so does the end of a
text (`Spent.run`). `scanner_histories` puts this together.
-/

namespace Scriptlet

/-! ## Calls -/

inductive Call where
  | new (source : String)
  | init (source : String)
  | nextToken
  | next
  /-- `nextToken` on a copy. -/
  | peek
  | atEnd
  deriving DecidableEq, Repr

namespace Call

/-- Calls that ask for a token. -/
def pulls : Call → Bool
  | nextToken | next | peek => true
  | _ => false

/-- Calls that give the scanner a text. -/
def renews : Call → Bool
  | new _ | init _ => true
  | _ => false

/-- Calls that neither give a text nor end a pass. -/
def lingers : Call → Bool
  | nextToken | peek | atEnd => true
  | _ => false

theorem renews_of_pulls {c : Call} (h : c.pulls = true) : c.renews = false := by
  cases c with
  | nextToken | next | peek => rfl
  | new | init | atEnd => cases h

end Call

inductive Answer where
  | nothing
  | yield (y : Yield)
  | ending (atEnd : Bool)
  deriving DecidableEq, Repr

namespace Answer

def tokens : Answer → List Token
  | yield (.token t) => [t]
  | _ => []

def isFault : Answer → Bool
  | yield (.fault _) => true
  | _ => false

end Answer

namespace Scanner

def answer (s : Scanner) : Call → Answer
  | .new _ | .init _ => .nothing
  | .nextToken | .peek => .yield s.nextToken.1
  | .next => .yield s.next.1
  | .atEnd => .ending s.atEnd

def called (s : Scanner) : Call → Scanner
  | .new source => .start source.toList
  | .init source => s.init source.toList
  | .nextToken | .peek => s.nextToken.2
  | .next => s.next.2
  | .atEnd => s

def after (s : Scanner) (c : Call) : Scanner :=
  match c with
  | .peek => s
  | c => s.called c

def run (s : Scanner) (calls : List Call) : Scanner := calls.foldl after s

@[simp] theorem run_nil (s : Scanner) : s.run [] = s := rfl

@[simp] theorem run_cons (s : Scanner) (c : Call) (calls : List Call) :
    s.run (c :: calls) = (s.after c).run calls := rfl

/-! ## One pull -/

/-- A pass differs from single pulls in the scanner that it leaves, not in what it gives. -/
theorem next_fst (s : Scanner) : s.next.1 = s.nextToken.1 := by
  unfold next
  split
  · rename_i hn
    rw [hn]
  · rfl

theorem next_of_fault {s s' : Scanner} {f : ScanFault} (h : s.nextToken = (.fault f, s')) :
    s.next = (.fault f, s'.exhaust) := by
  rw [next, h]

theorem next_of_ne_fault {s : Scanner} (h : ∀ f, s.nextToken.1 ≠ .fault f) :
    s.next = s.nextToken := by
  unfold next
  split
  · rename_i f s' hn
    exact absurd (congrArg Prod.fst hn) (h f)
  · rfl

theorem answer_of_pulls (s : Scanner) {c : Call} (hc : c.pulls = true) :
    s.answer c = .yield s.nextToken.1 := by
  cases c with
  | nextToken | peek => rfl
  | next => exact congrArg Answer.yield s.next_fst
  | new | init | atEnd => cases hc

/-- A scanner stays with its text, and its position goes with what it reads. -/
theorem nextToken_reads (s : Scanner) :
    ∃ piece, s.rest = piece ++ s.nextToken.2.rest ∧ s.nextToken.2.source = s.source ∧
      s.nextToken.2.position = s.position.advance piece := by
  fun_induction nextToken s with
  | case1 s hm hr => exact ⟨[], rfl, rfl, rfl⟩
  | case2 s hm c cs hr => exact ⟨[], rfl, rfl, rfl⟩
  | case3 s m hm kind hk => exact ⟨m.piece, (firstMatch_append hm).1.symm, rfl, rfl⟩
  | case4 s m hm hk ih =>
    obtain ⟨piece, hrest, hsource, hposition⟩ := ih
    refine ⟨m.piece ++ piece, ?_, hsource, ?_⟩
    · rw [List.append_assoc, ← hrest]
      exact (firstMatch_append hm).1.symm
    · rw [hposition, Position.advance_append]
      rfl

/-- Where the end of a text was met, nothing is left of it. -/
theorem rest_of_finish {s s' : Scanner} (h : s.nextToken = (.finish, s')) : s'.rest = [] := by
  fun_induction nextToken s with
  | case1 s hm hr =>
    cases h
    exact hr
  | case2 => cases h
  | case3 => cases h
  | case4 s m hm hk ih => exact ih h

/-- A fault leaves the scanner at the character that it is about, where it comes again. -/
theorem stuck_of_fault {s s' : Scanner} {f : ScanFault} (h : s.nextToken = (.fault f, s')) :
    s'.rest.head? = some f.character ∧ s'.position = f.position ∧
      s'.nextToken = (.fault f, s') := by
  fun_induction nextToken s with
  | case1 => cases h
  | case2 s hm c cs hr =>
    cases h
    exact ⟨by rw [hr]; rfl, rfl, nextToken_fault hr hm⟩
  | case3 => cases h
  | case4 s m hm hk ih => exact ih h

/-- A call takes from the feed what it gives. -/
theorem feed_eq_answer (s : Scanner) :
    s.feed = ⟨(s.answer .nextToken).tokens ++ s.nextToken.2.feed.tokens,
      s.nextToken.2.feed.fault?⟩ := by
  rw [answer]
  cases hn : s.nextToken with
  | mk y s' =>
    cases y with
    | token t => exact feed_token hn
    | finish => rw [feed_finish hn, feed_finish (nextToken_finish_again hn)]; rfl
    | fault f => rw [feed_fault hn, feed_fault (stuck_of_fault hn).2.2]; rfl

/-! ## Calls that come later -/

theorem run_of_unmoved {s : Scanner} {calls : List Call} (h : ∀ c ∈ calls, s.after c = s) :
    s.run calls = s := by
  induction calls with
  | nil => rfl
  | cons c calls ih =>
    rw [run_cons, h c List.mem_cons_self]
    exact ih fun c hc => h c (List.mem_cons_of_mem _ hc)

/-- A scanner at a fault stays there until a pass is ended or another text comes. -/
theorem run_of_stuck {s : Scanner} {f : ScanFault} (h : s.nextToken = (.fault f, s))
    {calls : List Call} (hcalls : ∀ c ∈ calls, c.lingers = true) : s.run calls = s := by
  refine run_of_unmoved fun c hc => ?_
  cases c with
  | nextToken => exact congrArg Prod.snd h
  | peek | atEnd => rfl
  | new | init | next => cases hcalls _ hc

/-- Only text that is passed over is left. -/
def Spent (s : Scanner) : Prop := s.nextToken.1 = .finish

theorem spent_of_rest {s : Scanner} (h : s.rest = []) : s.Spent :=
  congrArg Prod.fst (nextToken_finish h)

theorem Spent.next_eq {s : Scanner} (h : s.Spent) : s.next = s.nextToken := by
  refine next_of_ne_fault fun f => ?_
  rw [h]
  exact nofun

theorem Spent.rest_called {s : Scanner} (h : s.Spent) {c : Call} (hc : c.pulls = true) :
    (s.called c).rest = [] := by
  have hrest : s.nextToken.2.rest = [] := rest_of_finish (Prod.ext h rfl)
  cases c with
  | nextToken | peek => exact hrest
  | next => rwa [called, h.next_eq]
  | new | init | atEnd => cases hc

theorem Spent.after {s : Scanner} (h : s.Spent) {c : Call} (hc : c.renews = false) :
    (s.after c).Spent := by
  cases c with
  | nextToken | next => exact spent_of_rest (h.rest_called rfl)
  | peek | atEnd => exact h
  | new | init => cases hc

theorem Spent.run {s : Scanner} (h : s.Spent) {calls : List Call}
    (hcalls : ∀ c ∈ calls, c.renews = false) : (s.run calls).Spent := by
  induction calls generalizing s with
  | nil => exact h
  | cons c calls ih =>
    exact ih (h.after (hcalls c List.mem_cons_self)) fun c hc =>
      hcalls c (List.mem_cons_of_mem _ hc)

/-- A scanner with nothing left stays as it is until another text comes. -/
theorem run_of_rest {s : Scanner} (h : s.rest = []) {calls : List Call}
    (hcalls : ∀ c ∈ calls, c.renews = false) : s.run calls = s := by
  have hfinish := nextToken_finish h
  refine run_of_unmoved fun c hc => ?_
  cases c with
  | nextToken => exact congrArg Prod.snd hfinish
  | next => exact congrArg Prod.snd ((spent_of_rest h).next_eq.trans hfinish)
  | peek | atEnd => rfl
  | new | init => cases hcalls _ hc

/-- A call that meets the end of the text, and a pass that ends at a fault, leave nothing of the
text to the scanner that they were made on. -/
theorem rest_called_of_ended {s : Scanner} {c : Call}
    (h : s.answer c = .yield .finish ∨ c = .next ∧ (s.answer c).isFault = true) :
    (s.called c).rest = [] ∧ (s.after c).Spent := by
  rcases h with h | ⟨rfl, h⟩
  · have hc : c.pulls = true := by
      cases c with
      | nextToken | next | peek => rfl
      | new | init | atEnd => cases h
    rw [answer_of_pulls s hc] at h
    have hspent : s.Spent := Answer.yield.inj h
    exact ⟨hspent.rest_called hc, hspent.after (Call.renews_of_pulls hc)⟩
  · rw [answer_of_pulls s rfl] at h
    cases hn : s.nextToken with
    | mk y s' =>
      rw [hn] at h
      cases y with
      | fault f =>
        have hrest : (s.called .next).rest = [] := by
          rw [called, next_of_fault hn]
          rfl
        exact ⟨hrest, spent_of_rest hrest⟩
      | token t => cases h
      | finish => cases h

end Scanner

/-! ## Sessions -/

structure Session where
  scanner : Scanner
  /-- What the scanner was given last. -/
  text : String
  /-- The tokens given since then. Those of copies do not count. -/
  returned : List Token
  /-- Whether a pass has ended at a fault since then. -/
  broken : Bool
  deriving DecidableEq, Repr

namespace Session

def start (source : String) : Session := ⟨.start source.toList, source, [], false⟩

def call (σ : Session) (c : Call) : Session :=
  match c with
  | .new source | .init source => ⟨σ.scanner.after c, source, [], false⟩
  | .nextToken =>
    { σ with
      scanner := σ.scanner.after c
      returned := σ.returned ++ (σ.scanner.answer c).tokens }
  | .next =>
    { σ with
      scanner := σ.scanner.after c
      returned := σ.returned ++ (σ.scanner.answer c).tokens
      broken := σ.broken || (σ.scanner.answer c).isFault }
  | .peek | .atEnd => { σ with scanner := σ.scanner.after c }

def run (σ : Session) (calls : List Call) : Session := calls.foldl call σ

theorem scanner_call (σ : Session) (c : Call) : (σ.call c).scanner = σ.scanner.after c := by
  cases c <;> rfl

structure Faithful (σ : Session) : Prop where
  source : σ.scanner.source = σ.text.toList
  /-- What was read, whole characters of the text, is where the position says. -/
  reads : ∃ read, σ.text.toList = read ++ σ.scanner.rest ∧
    (σ.broken = false → σ.scanner.position = Position.start.advance read)
  /-- The tokens given, and those still to come, are the tokens of the text. -/
  feed : σ.broken = false →
    scan σ.text = ⟨σ.returned ++ σ.scanner.feed.tokens, σ.scanner.feed.fault?⟩
  /-- A pass that ended at a fault went to the end of the text. -/
  ended : σ.broken = true → σ.scanner.rest = []

theorem faithful_start (source : String) : (start source).Faithful where
  source := rfl
  reads := ⟨[], rfl, fun _ => rfl⟩
  feed _ := rfl
  ended h := by cases h

variable {σ : Session}

theorem Faithful.nextToken (h : σ.Faithful) : (σ.call .nextToken).Faithful := by
  obtain ⟨piece, hrest, hsource, hposition⟩ := σ.scanner.nextToken_reads
  obtain ⟨read, htext, hread⟩ := h.reads
  constructor
  · exact hsource.trans h.source
  · refine ⟨read ++ piece, ?_, ?_⟩
    · rw [List.append_assoc]
      exact htext.trans (congrArg (read ++ ·) hrest)
    · intro hb
      rw [Position.advance_append, ← hread hb]
      exact hposition
  · intro hb
    have hfeed := h.feed hb
    rw [σ.scanner.feed_eq_answer, ← List.append_assoc] at hfeed
    exact hfeed
  · intro hb
    have hnext := Scanner.nextToken_finish (h.ended hb)
    exact (congrArg (·.2.rest) hnext).trans (h.ended hb)

/-- A pass that meets no fault is a row of single pulls. -/
theorem call_next_of_ne_fault (h : ∀ f, σ.scanner.nextToken.1 ≠ .fault f) :
    σ.call .next = σ.call .nextToken := by
  have hnext := Scanner.next_of_ne_fault h
  have hfault : (Answer.yield σ.scanner.nextToken.1).isFault = false := by
    cases hy : σ.scanner.nextToken.1 with
    | fault f => exact absurd hy (h f)
    | token t => rfl
    | finish => rfl
  simp only [call, Scanner.after, Scanner.called, Scanner.answer, hnext, hfault, Bool.or_false]

theorem Faithful.next (h : σ.Faithful) : (σ.call .next).Faithful := by
  cases hn : σ.scanner.nextToken with
  | mk y s' =>
    cases y with
    | token t =>
      rw [call_next_of_ne_fault (by simp [hn])]
      exact h.nextToken
    | finish =>
      rw [call_next_of_ne_fault (by simp [hn])]
      exact h.nextToken
    | fault f =>
      have hnext := Scanner.next_of_fault hn
      have hbroken : (σ.call .next).broken = true := by
        simp [call, Scanner.answer, hnext, Answer.isFault]
      have hscanner : (σ.call .next).scanner = s'.exhaust := by
        rw [scanner_call]
        simp [Scanner.after, Scanner.called, hnext]
      have hrest : (σ.call .next).scanner.rest = [] := by
        rw [hscanner, Scanner.exhaust]
      constructor
      · obtain ⟨-, -, hsource, -⟩ := σ.scanner.nextToken_reads
        rw [hn] at hsource
        rw [hscanner]
        exact hsource.trans h.source
      · refine ⟨σ.text.toList, ?_, ?_⟩
        · rw [hrest, List.append_nil]
          rfl
        · rw [hbroken]
          exact nofun
      · rw [hbroken]
        exact nofun
      · exact fun _ => hrest

/-- No call makes a session unfaithful. -/
theorem Faithful.call (h : σ.Faithful) (c : Call) : (σ.call c).Faithful := by
  cases c with
  | new source | init source => exact faithful_start source
  | nextToken => exact h.nextToken
  | next => exact h.next
  | peek | atEnd => exact h

theorem Faithful.run (h : σ.Faithful) (calls : List Call) : (σ.run calls).Faithful := by
  induction calls generalizing σ with
  | nil => exact h
  | cons c calls ih => exact ih (h.call c)

theorem Faithful.cursor (h : σ.Faithful) :
    ∃ read, σ.text.toList = read ++ σ.scanner.rest ∧ σ.scanner.cursor = byteLength read ∧
      (σ.broken = false → σ.scanner.position = Position.start.advance read) := by
  obtain ⟨read, htext, hread⟩ := h.reads
  refine ⟨read, htext, ?_, hread⟩
  rw [Scanner.cursor, h.source, htext, byteLength_append, Nat.add_sub_cancel]

theorem Faithful.atEnd_iff (h : σ.Faithful) :
    σ.scanner.atEnd = true ↔ σ.scanner.cursor = byteLength σ.text.toList := by
  obtain ⟨read, htext, hcursor, -⟩ := h.cursor
  rw [hcursor, htext, byteLength_append, Scanner.atEnd, List.isEmpty_iff, ← byteLength_eq_zero]
  omega

/-- Collecting gives what remains of all tokens of the text. -/
theorem Faithful.collect (h : σ.Faithful) (hb : σ.broken = false) :
    σ.scanner.collect.1 = (tokenize σ.text).map (List.drop σ.returned.length) := by
  rw [Scanner.collect, Scanner.collectFrom_fst, tokenize_eq, h.feed hb, Feed.result]
  cases σ.scanner.feed.fault? with
  | none => simp [Except.map]
  | some f => rfl

end Session

/-- Whatever is asked of a scanner, and in whatever order: it has read whole characters of its text;
until a pass ends at a fault its position is where they lead to, and the tokens it gave are the
first ones of the text. A fault holds it at one character until a pass ends there. The end of the
text is final, and a new text makes a new scanner. -/
theorem scanner_histories (source : String) (calls : List Call) :
    let σ := (Session.start source).run calls
    (σ.scanner.source = σ.text.toList ∧
      ∃ read, σ.text.toList = read ++ σ.scanner.rest ∧ σ.scanner.cursor = byteLength read ∧
        (σ.broken = false → σ.scanner.position = Position.start.advance read)) ∧
    (σ.scanner.atEnd = true ↔ σ.scanner.cursor = byteLength σ.text.toList) ∧
    (σ.broken = false →
      scan σ.text = ⟨σ.returned ++ σ.scanner.feed.tokens, σ.scanner.feed.fault?⟩ ∧
      σ.scanner.collect.1 = (tokenize σ.text).map (List.drop σ.returned.length)) ∧
    (∀ f, σ.scanner.answer .nextToken = .yield (.fault f) →
      (σ.scanner.after .nextToken).rest.head? = some f.character ∧
      (σ.scanner.after .nextToken).position = f.position ∧
      ∀ later, (∀ c ∈ later, c.lingers = true) → ∀ c, c.pulls = true →
        ((σ.scanner.after .nextToken).run later).answer c = .yield (.fault f)) ∧
    (∀ c, (σ.scanner.answer c = .yield .finish ∨
        c = .next ∧ (σ.scanner.answer c).isFault = true) →
      ∀ later, (∀ c' ∈ later, c'.renews = false) →
        ((σ.scanner.called c).run later).atEnd = true ∧
        ∀ c', c'.pulls = true →
          ((σ.scanner.called c).run later).answer c' = .yield .finish ∧
          ((σ.scanner.after c).run later).answer c' = .yield .finish) ∧
    (∀ text later c, ((σ.scanner.after (.init text)).run later).answer c =
      ((Scanner.start text.toList).run later).answer c) := by
  intro σ
  have h : σ.Faithful := (Session.faithful_start source).run calls
  refine ⟨⟨h.source, h.cursor⟩, h.atEnd_iff, fun hb => ⟨h.feed hb, h.collect hb⟩, ?_, ?_, ?_⟩
  · intro f hf
    have hn : σ.scanner.nextToken = (.fault f, σ.scanner.nextToken.2) :=
      Prod.ext (Answer.yield.inj hf) rfl
    obtain ⟨hhead, hposition, hstuck⟩ := Scanner.stuck_of_fault hn
    refine ⟨hhead, hposition, ?_⟩
    intro later hlater c hc
    have hrun : (σ.scanner.after .nextToken).run later = σ.scanner.nextToken.2 :=
      Scanner.run_of_stuck hstuck hlater
    rw [hrun, Scanner.answer_of_pulls _ hc, hstuck]
  · intro c hended later hlater
    obtain ⟨hrest, hspent⟩ := Scanner.rest_called_of_ended hended
    rw [Scanner.run_of_rest hrest hlater]
    refine ⟨by rw [Scanner.atEnd, hrest]; rfl, ?_⟩
    intro c' hc'
    rw [Scanner.answer_of_pulls _ hc', Scanner.answer_of_pulls _ hc']
    exact ⟨congrArg Answer.yield (Scanner.spent_of_rest hrest),
      congrArg Answer.yield (hspent.run hlater)⟩
  · intro text later c
    rfl

/-- A copy that meets the end of a text goes there alone. -/
example : let s := Scanner.start " ".toList
    s.answer .peek = .yield .finish ∧ (s.called .peek).atEnd = true ∧
      (s.after .peek).atEnd = false := by
  decide +kernel

end Scriptlet
