import Scriptlet.Proofs.Syntax.Derivation

/-!
# Scriptlet.Proofs.Syntax.Unambiguous

A list of tokens has at most one tree. Each lemma compares two phrases of one category that begin
a common list of tokens; they have the same tokens and the same tree, provided that neither is
followed by a token with which it could go on (`Category.Ends`).
-/

namespace Scriptlet

theorem Leaf.unique {t : Token} {e e' : Expression} (h : Leaf t e) (h' : Leaf t e') : e = e' := by
  cases h with
  | number hk hx => cases h' <;> simp_all
  | string hk hx => cases h' <;> simp_all
  | @boolean b hk hb =>
    cases h' with
    | @boolean b' _ hb' =>
      rw [hb] at hb'
      cases b <;> cases b' <;> first | rfl | exact absurd hb' (by decide)
    | number hk' _ => simp_all
    | string hk' _ => simp_all
    | identifier hk' => simp_all
  | identifier hk => cases h' <;> simp_all

theorem DerivesExpression.unique {ts : List Token} {e : Expression}
    (h : DerivesExpression ts e) :
    ∀ {ts' r r' : List Token} {e' : Expression}, DerivesExpression ts' e' →
      ts ++ r = ts' ++ r' → nextKind r ≠ some .operator → nextKind r' ≠ some .operator →
      ts = ts' ∧ e = e' := by
  induction h with
  | leaf ht =>
    intro ts' r r' e' h' happ hr hr'
    cases h' with
    | leaf ht' =>
      obtain ⟨rfl, -⟩ := List.cons.inj happ
      exact ⟨rfl, ht.unique ht'⟩
    | binary ht' ho' _ _ =>
      obtain ⟨-, rfl⟩ := List.cons.inj happ
      exact absurd (congrArg some ho') hr
    | declaration hd' _ _ _ =>
      obtain ⟨rfl, -⟩ := List.cons.inj happ
      exact absurd hd' ht.ne_letWord
  | binary ht ho hp _ ih =>
    intro ts' r r' e' h' happ hr hr'
    cases h' with
    | leaf ht' =>
      obtain ⟨-, rfl⟩ := List.cons.inj happ
      exact absurd (congrArg some ho) hr'
    | binary ht' ho' hp' hr₂ =>
      obtain ⟨rfl, htail⟩ := List.cons.inj happ
      obtain ⟨rfl, hrest⟩ := List.cons.inj htail
      obtain ⟨rfl, rfl⟩ := ih hr₂ hrest hr hr'
      rw [hp] at hp'
      cases hp'
      exact ⟨rfl, by rw [ht.unique ht']⟩
    | declaration hd' _ _ _ =>
      obtain ⟨rfl, -⟩ := List.cons.inj happ
      exact absurd hd' ht.ne_letWord
  | declaration hd _ _ _ ih =>
    intro ts' r r' e' h' happ hr hr'
    cases h' with
    | leaf ht' =>
      obtain ⟨rfl, -⟩ := List.cons.inj happ
      exact absurd hd ht'.ne_letWord
    | binary ht' _ _ _ =>
      obtain ⟨rfl, -⟩ := List.cons.inj happ
      exact absurd hd ht'.ne_letWord
    | declaration _ _ _ hv' =>
      obtain ⟨rfl, hn⟩ := List.cons.inj happ
      obtain ⟨rfl, ha⟩ := List.cons.inj hn
      obtain ⟨rfl, hrest⟩ := List.cons.inj ha
      obtain ⟨rfl, rfl⟩ := ih hv' hrest hr hr'
      exact ⟨rfl, rfl⟩

theorem DerivesFurther.unique {ts : List Token} {ns : List String} (h : DerivesFurther ts ns) :
    ∀ {ts' r r' : List Token} {ns' : List String}, DerivesFurther ts' ns' →
      ts ++ r = ts' ++ r' → ts = ts' ∧ ns = ns' := by
  induction h with
  | close hc =>
    intro ts' r r' ns' h' happ
    cases h' <;> simp_all
  | trailing hm hc =>
    intro ts' r r' ns' h' happ
    cases h' <;> simp_all
  | more hm hn _ ih =>
    intro ts' r r' ns' h' happ
    cases h' with
    | close hc' => simp_all
    | trailing hm' hc' => simp_all
    | more _ _ hrest' =>
      obtain ⟨rfl, htail⟩ := List.cons.inj happ
      obtain ⟨rfl, hrest⟩ := List.cons.inj htail
      obtain ⟨rfl, rfl⟩ := ih hrest' hrest
      exact ⟨rfl, rfl⟩

theorem DerivesParameters.unique {ts ts' r r' : List Token} {ns ns' : List String}
    (h : DerivesParameters ts ns) (h' : DerivesParameters ts' ns')
    (happ : ts ++ r = ts' ++ r') : ts = ts' ∧ ns = ns' := by
  cases h with
  | none _ hc => cases h' <;> simp_all
  | some _ hn hrest =>
    cases h' with
    | none _ hc' => simp_all
    | some _ _ hrest' =>
      obtain ⟨rfl, htail⟩ := List.cons.inj happ
      obtain ⟨rfl, happ'⟩ := List.cons.inj htail
      obtain ⟨rfl, rfl⟩ := hrest.unique hrest' happ'
      exact ⟨rfl, rfl⟩

/-- What may come after a phrase: a conditional would go on with `else`, and a body goes on up to
the end of its list. -/
def Category.Ends : Category → Option Kind → Prop
  | block, _ => True
  | body, next? => next? = none ∨ next? = some .closeBrace
  | statement, next? | branch, next? | alternate, next? => next? ≠ some .elseWord

/-- In a body, a statement is followed by the next one or by the end of the body. -/
theorem DerivesPhrase.statement_ends {us r : List Token} {b : List Statement}
    (h : DerivesPhrase .body us b) (hr : nextKind r ≠ some .elseWord) :
    nextKind (us ++ r) ≠ some .elseWord := by
  cases h with
  | nil => exact hr
  | cons hs _ =>
    obtain ⟨t, us', rfl, ht⟩ := hs.head_statement
    intro he
    rw [Option.some.inj he] at ht
    cases ht

/-- Statements that begin with one token have one form. -/
theorem DerivesPhrase.form_eq {ts ts' r r' : List Token} {s s' : Statement}
    (h : DerivesPhrase .statement ts s) (h' : DerivesPhrase .statement ts' s')
    (happ : ts ++ r = ts' ++ r') : s.form = s'.form := by
  obtain ⟨t, us, rfl, ht⟩ := h.head_statement
  obtain ⟨t', us', rfl, ht'⟩ := h'.head_statement
  obtain ⟨rfl, -⟩ := List.cons.inj happ
  rw [ht] at ht'
  exact Option.some.inj ht'

/-- A body ends where no statement begins. -/
theorem DerivesPhrase.not_nil_of_cons {ts r r' : List Token} {s : Statement}
    (h : DerivesPhrase .statement ts s) (happ : r = ts ++ r')
    (hr : Category.body.Ends (nextKind r)) : False := by
  obtain ⟨t, us, rfl, ht⟩ := h.head_statement
  rw [happ, List.cons_append, nextKind_cons] at hr
  rcases hr with hr | hr
  · cases hr
  · rw [Option.some.inj hr] at ht
    cases ht

theorem DerivesPhrase.unique {c : Category} {ts : List Token} {x : c.Tree}
    (h : DerivesPhrase c ts x) :
    ∀ {ts' r r' : List Token} {x' : c.Tree}, DerivesPhrase c ts' x' → ts ++ r = ts' ++ r' →
      c.Ends (nextKind r) → c.Ends (nextKind r') → ts = ts' ∧ x = x' := by
  induction h with
  | @expression ts s e he hs =>
    intro ts' r r' x' h' happ _ _
    have hform := form_eq (.expression he hs) h' happ
    cases h' with
    | @expression _ s' _ he' hs' =>
      have hnext : nextKind (s :: r) ≠ some .operator := nextKind_ne hs (by decide) r
      have hnext' : nextKind (s' :: r') ≠ some .operator := nextKind_ne hs' (by decide) r'
      simp only [List.append_assoc, List.cons_append, List.nil_append] at happ
      obtain ⟨rfl, rfl⟩ := he.unique he' happ hnext hnext'
      obtain ⟨rfl, -⟩ := List.cons.inj (List.append_cancel_left happ)
      exact ⟨rfl, rfl⟩
    | _ => cases hform
  | block hb ih =>
    intro ts' r r' x' h' happ hr hr'
    have hform := form_eq (.block hb) h' happ
    cases h' with
    | block hb' =>
      obtain ⟨rfl, rfl⟩ := ih hb' happ trivial trivial
      exact ⟨rfl, rfl⟩
    | _ => cases hform
  | function hf hn hp hb ih =>
    intro ts' r r' x' h' happ hr hr'
    have hform := form_eq (.function hf hn hp hb) h' happ
    cases h' with
    | function hf' hn' hp' hb' =>
      simp only [List.append_assoc, List.cons_append, List.cons.injEq] at happ
      obtain ⟨rfl, rfl, happ⟩ := happ
      obtain ⟨rfl, rfl⟩ := hp.unique hp' happ
      obtain ⟨rfl, rfl⟩ := ih hb' (List.append_cancel_left happ) trivial trivial
      exact ⟨rfl, rfl⟩
    | _ => cases hform
  | conditional hb ih =>
    intro ts' r r' x' h' happ hr hr'
    have hform := form_eq (.conditional hb) h' happ
    cases h' with
    | conditional hb' =>
      obtain ⟨rfl, rfl⟩ := ih hb' happ hr hr'
      exact ⟨rfl, rfl⟩
    | _ => cases hform
  | forOf hf ho hl hx hw hy hc hb ih =>
    intro ts' r r' x' h' happ hr hr'
    have hform := form_eq (.forOf hf ho hl hx hw hy hc hb) h' happ
    cases h' with
    | forOf _ _ _ _ _ _ _ hb' =>
      simp only [List.cons_append, List.cons.injEq] at happ
      obtain ⟨rfl, rfl, rfl, rfl, rfl, rfl, rfl, happ⟩ := happ
      obtain ⟨rfl, rfl⟩ := ih hb' happ trivial trivial
      exact ⟨rfl, rfl⟩
    | _ => cases hform
  | braces ho _ hc ih =>
    intro ts' r r' x' h' happ _ _
    cases h' with
    | braces ho' hb' hc' =>
      have hnext : ∀ {c : Token} {r : List Token}, c.kind = .closeBrace →
          Category.body.Ends (nextKind (c :: r)) := fun hk => .inr (congrArg some hk)
      simp only [List.append_assoc, List.cons_append, List.nil_append, List.cons.injEq] at happ
      obtain ⟨rfl, happ⟩ := happ
      obtain ⟨rfl, rfl⟩ := ih hb' happ (hnext hc) (hnext hc')
      obtain ⟨rfl, -⟩ := List.cons.inj (List.append_cancel_left happ)
      exact ⟨rfl, rfl⟩
  | nil =>
    intro ts' r r' x' h' happ hr hr'
    cases h' with
    | nil => exact ⟨rfl, rfl⟩
    | cons hs' _ =>
      rw [List.nil_append, List.append_assoc] at happ
      exact (hs'.not_nil_of_cons happ hr).elim
  | cons hs hb ihs ihb =>
    intro ts' r r' x' h' happ hr hr'
    cases h' with
    | nil =>
      rw [List.nil_append, List.append_assoc] at happ
      exact (hs.not_nil_of_cons happ.symm hr').elim
    | cons hs' hb' =>
      have helse : ∀ {next? : Option Kind}, Category.body.Ends next? → next? ≠ some .elseWord := by
        rintro _ (hend | hend) rfl <;> cases hend
      rw [List.append_assoc, List.append_assoc] at happ
      obtain ⟨rfl, rfl⟩ := ihs hs' happ (hb.statement_ends (helse hr))
        (hb'.statement_ends (helse hr'))
      obtain ⟨rfl, rfl⟩ := ihb hb' (List.append_cancel_left happ) hr hr'
      exact ⟨rfl, rfl⟩
  | branch _ _ he hc _ _ ihb iha =>
    intro ts' r r' x' h' happ hr hr'
    cases h' with
    | branch _ _ he' hc' hb' ha' =>
      have hnext : ∀ {c : Token} {r : List Token}, c.kind = .closeParen →
          nextKind (c :: r) ≠ some .operator := fun hk => nextKind_ne hk (by decide) _
      simp only [List.append_assoc, List.cons_append, List.cons.injEq] at happ
      obtain ⟨rfl, rfl, happ⟩ := happ
      obtain ⟨rfl, rfl⟩ := he.unique he' happ (hnext hc) (hnext hc')
      obtain ⟨rfl, hrest⟩ := List.cons.inj (List.append_cancel_left happ)
      obtain ⟨rfl, rfl⟩ := ihb hb' hrest trivial trivial
      obtain ⟨rfl, rfl⟩ := iha ha' (List.append_cancel_left hrest) hr hr'
      exact ⟨rfl, rfl⟩
  | absent =>
    intro ts' r r' x' h' happ hr hr'
    cases h' with
    | absent => exact ⟨rfl, rfl⟩
    | elseBlock hw' _ =>
      obtain rfl : r = _ := happ
      exact absurd (congrArg some hw') hr
    | elseBranch hw' _ =>
      obtain rfl : r = _ := happ
      exact absurd (congrArg some hw') hr
  | elseBlock hw hb ih =>
    intro ts' r r' x' h' happ hr hr'
    cases h' with
    | absent =>
      obtain rfl : _ = r' := happ
      exact absurd (congrArg some hw) hr'
    | elseBlock _ hb' =>
      obtain ⟨rfl, hrest⟩ := List.cons.inj happ
      obtain ⟨rfl, rfl⟩ := ih hb' hrest trivial trivial
      exact ⟨rfl, rfl⟩
    | elseBranch _ hb' =>
      obtain ⟨t, us, rfl, ht⟩ := hb.head_block
      obtain ⟨t', us', rfl, ht'⟩ := hb'.head_branch
      simp_all
  | elseBranch hw hb ih =>
    intro ts' r r' x' h' happ hr hr'
    cases h' with
    | absent =>
      obtain rfl : _ = r' := happ
      exact absurd (congrArg some hw) hr'
    | elseBlock _ hb' =>
      obtain ⟨t, us, rfl, ht⟩ := hb.head_branch
      obtain ⟨t', us', rfl, ht'⟩ := hb'.head_block
      simp_all
    | elseBranch _ hb' =>
      obtain ⟨rfl, hrest⟩ := List.cons.inj happ
      obtain ⟨rfl, rfl⟩ := ih hb' hrest hr hr'
      exact ⟨rfl, rfl⟩

theorem Derives.unique {ts : List Token} {p p' : Program} (h : Derives ts p)
    (h' : Derives ts p') : p = p' := by
  have hend : Category.body.Ends (nextKind []) := .inl rfl
  obtain ⟨-, hb⟩ := h.body.unique h'.body rfl hend hend
  cases p
  cases p'
  exact congrArg Program.mk hb

end Scriptlet
