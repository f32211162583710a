import TildeLang.Proofs.Grammar

/-!
# Sentences

A **sentence** is a list of kinds of token that some phrase has.  Which tokens
of these kinds are taken does not matter: putting tokens of the same kinds into
a phrase gives a phrase again.

* `Assignment.recast`, `Program.recast` — tokens can be exchanged for tokens of
  the same kinds;
* `BeginsSentence.exists_phrase`, `IsSentence.exists_phrase` — what begins a
  sentence begins a phrase, and what is a sentence is one.
-/

namespace TildeLang

namespace Grammar

/-- The kinds are those of a phrase, with any number of levels. -/
def IsSentence {α : Type} (phrases : Nat → Phrases α) (kinds : List Kind) : Prop :=
  ∃ levels ts a, phrases levels ts a ∧ ts.map Token.kind = kinds

/-- The kinds are the beginning of a sentence. -/
def BeginsSentence {α : Type} (phrases : Nat → Phrases α) (kinds : List Kind) : Prop :=
  ∃ more, IsSentence phrases (kinds ++ more)

/-- Tokens of the same kinds. -/
structure Recast (ts us : List Token) : Prop where
  kinds : us.map Token.kind = ts.map Token.kind

namespace Recast

variable {ts ts' us : List Token} {t : Token}

theorem nil_inv (h : Recast [] us) : us = [] := by
  simpa using h.kinds

theorem cons_inv (h : Recast (t :: ts) us) :
    ∃ u vs, us = u :: vs ∧ u.kind = t.kind ∧ Recast ts vs := by
  obtain ⟨u, vs, rfl, hkind, hkinds⟩ := List.map_eq_cons_iff.mp h.kinds
  exact ⟨u, vs, rfl, hkind, ⟨hkinds⟩⟩

theorem append_inv (h : Recast (ts ++ ts') us) :
    ∃ vs vs', us = vs ++ vs' ∧ Recast ts vs ∧ Recast ts' vs' := by
  have hkinds := h.kinds
  rw [List.map_append] at hkinds
  obtain ⟨vs, vs', rfl, hvs, hvs'⟩ := List.map_eq_append_iff.mp hkinds
  exact ⟨vs, vs', rfl, ⟨hvs⟩, ⟨hvs'⟩⟩

theorem singleton_inv (h : Recast [t] us) : ∃ u, us = [u] ∧ u.kind = t.kind := by
  obtain ⟨u, vs, rfl, hkind, hvs⟩ := h.cons_inv
  obtain rfl := hvs.nil_inv
  exact ⟨u, rfl, hkind⟩

end Recast

/-- Tokens of phrases can be exchanged for tokens of the same kinds. -/
def Recastable {α : Type} (phrases : Phrases α) : Prop :=
  ∀ ts us a, phrases ts a → Recast ts us → ∃ b, phrases us b

variable {group : Phrases Expr}

theorem Parenthesized.recast (hgroup : Recastable group) : Recastable (Parenthesized group) := by
  intro _ us e hparenthesized h
  obtain ⟨hleft, inner, hright⟩ := hparenthesized
  obtain ⟨left, us, rfl, hleft', h⟩ := h.cons_inv
  obtain ⟨us, vs, rfl, hus, hvs⟩ := h.append_inv
  obtain ⟨right, rfl, hright'⟩ := hvs.singleton_inv
  obtain ⟨e', inner'⟩ := hgroup _ us _ inner hus
  exact ⟨e', .mk (hleft'.trans hleft) inner' (hright'.trans hright)⟩

theorem Primary.recast (hgroup : Recastable group) : Recastable (Primary group) := by
  intro ts us e hprimary h
  cases hprimary with
  | @literal t l hkind hvalue =>
      obtain ⟨u, rfl, hkind'⟩ := h.singleton_inv
      exact ⟨.literal ⟨l.kind, u.value⟩, .literal (hkind.trans hkind'.symm) rfl⟩
  | identifier hkind =>
      obtain ⟨u, rfl, hkind'⟩ := h.singleton_inv
      exact ⟨_, .identifier (hkind'.trans hkind)⟩
  | parenthesized hinner =>
      obtain ⟨e', hinner'⟩ := Parenthesized.recast hgroup _ us _ hinner h
      exact ⟨e', .parenthesized hinner'⟩

theorem Grouped.recast {ops : List BinaryOp} {operand : Phrases Expr}
    (hoperand : Recastable operand) : Recastable (Grouped ops operand) := by
  intro ts us e hgrouped h
  induction hgrouped generalizing us with
  | single only =>
      obtain ⟨e', only'⟩ := hoperand _ us _ only h
      exact ⟨e', .single only'⟩
  | apply first hop hsign last ih =>
      obtain ⟨us, vs, rfl, hus, hvs⟩ := h.append_inv
      obtain ⟨sign, vs, rfl, hsign', hvs⟩ := hvs.cons_inv
      obtain ⟨left', first'⟩ := ih us hus
      obtain ⟨right', last'⟩ := hoperand _ vs _ last hvs
      exact ⟨_, .apply first' hop (hsign'.trans hsign) last'⟩

theorem Assignment.recast (n : Nat) : Recastable (Assignment n) := by
  induction n with
  | zero => exact fun _ _ _ h => h.elim
  | succ n ih =>
      intro ts us e hassignment h
      cases hassignment with
      | sum hsum =>
          obtain ⟨e', hsum'⟩ := Grouped.recast (Grouped.recast (Primary.recast ih)) _ us _ hsum h
          exact ⟨e', .sum hsum'⟩
      | assign hname hequals value =>
          obtain ⟨name, us, rfl, hname', h⟩ := h.cons_inv
          obtain ⟨equals, us, rfl, hequals', h⟩ := h.cons_inv
          obtain ⟨e', value'⟩ := ih _ us _ value h
          exact ⟨_, .assign (hname'.trans hname) (hequals'.trans hequals) value'⟩

theorem Declared.recast (hgroup : Recastable group) : Recastable (Declared group) := by
  intro ts us d hdeclared h
  cases hdeclared with
  | bare hname =>
      obtain ⟨name, rfl, hname'⟩ := h.singleton_inv
      exact ⟨_, .bare (hname'.trans hname)⟩
  | initialized hname hequals init =>
      obtain ⟨name, us, rfl, hname', h⟩ := h.cons_inv
      obtain ⟨equals, us, rfl, hequals', h⟩ := h.cons_inv
      obtain ⟨e', init'⟩ := hgroup _ us _ init h
      exact ⟨_, .initialized (hname'.trans hname) (hequals'.trans hequals) init'⟩

theorem AfterComma.recast {α : Type} {item : Phrases α} (hitem : Recastable item) :
    Recastable (AfterComma item) := by
  intro _ us a hafter h
  obtain ⟨hcomma, next⟩ := hafter
  obtain ⟨comma, us, rfl, hcomma', h⟩ := h.cons_inv
  obtain ⟨a', next'⟩ := hitem _ us _ next h
  exact ⟨a', .mk (hcomma'.trans hcomma) next'⟩

theorem Sequence.recast {α : Type} {item : Phrases α} (hitem : Recastable item) :
    Recastable (Sequence item) := by
  intro ts us as hsequence h
  induction hsequence generalizing us with
  | nil =>
      obtain rfl := h.nil_inv
      exact ⟨[], .nil⟩
  | cons head tail ih =>
      obtain ⟨us, vs, rfl, hus, hvs⟩ := h.append_inv
      obtain ⟨a', head'⟩ := hitem _ us _ head hus
      obtain ⟨as', tail'⟩ := ih vs hvs
      exact ⟨_, .cons head' tail'⟩

/-- Tokens of a statement can be exchanged, and the new statement is open to an
`else` exactly when the old one is. -/
theorem Statement.recast_isOpen (n : Nat) (ts us : List Token) (s : Stmt)
    (hstatement : Statement n ts s) (h : Recast ts us) :
    ∃ s', Statement n us s' ∧ s'.isOpen = s.isOpen := by
  induction n generalizing ts us s with
  | zero => exact hstatement.elim
  | succ n ih =>
      have hexpr := Assignment.recast n
      have hstmt : Recastable (Statement n) := fun ts us s hs h =>
        (ih ts us s hs h).imp fun _ => And.left
      cases hstatement with
      | ifThen hword htest hconsequent =>
          obtain ⟨word, us, rfl, hword', h⟩ := h.cons_inv
          obtain ⟨us, vs, rfl, hus, hvs⟩ := h.append_inv
          obtain ⟨test', htest'⟩ := Parenthesized.recast hexpr _ us _ htest hus
          obtain ⟨consequent', hconsequent'⟩ := hstmt _ vs _ hconsequent hvs
          exact ⟨_, .ifThen (hword'.trans hword) htest' hconsequent', rfl⟩
      | ifThenElse hword htest hconsequent hclosed hother halternate =>
          obtain ⟨word, us, rfl, hword', h⟩ := h.cons_inv
          obtain ⟨us, rest, rfl, hus, hrest⟩ := h.append_inv
          obtain ⟨vs, rest, rfl, hvs, hrest⟩ := hrest.append_inv
          obtain ⟨other, ws, rfl, hother', hws⟩ := hrest.cons_inv
          obtain ⟨test', htest'⟩ := Parenthesized.recast hexpr _ us _ htest hus
          obtain ⟨consequent', hconsequent', hopen⟩ := ih _ vs _ hconsequent hvs
          obtain ⟨alternate', halternate', hopen'⟩ := ih _ ws _ halternate hws
          exact ⟨_, .ifThenElse (hword'.trans hword) htest' hconsequent' (hopen.trans hclosed)
            (hother'.trans hother) halternate', hopen'⟩
      | block hleft hbody hright =>
          obtain ⟨left, us, rfl, hleft', h⟩ := h.cons_inv
          obtain ⟨us, vs, rfl, hus, hvs⟩ := h.append_inv
          obtain ⟨right, rfl, hright'⟩ := hvs.singleton_inv
          obtain ⟨body', hbody'⟩ := Sequence.recast hstmt _ us _ hbody hus
          exact ⟨_, .block (hleft'.trans hleft) hbody' (hright'.trans hright), rfl⟩
      | declare hword hfirst hmore =>
          obtain ⟨word, us, rfl, hword', h⟩ := h.cons_inv
          obtain ⟨us, vs, rfl, hus, hvs⟩ := h.append_inv
          have hdeclared := Declared.recast hexpr
          obtain ⟨first', hfirst'⟩ := hdeclared _ us _ hfirst hus
          obtain ⟨more', hmore'⟩ := Sequence.recast (AfterComma.recast hdeclared) _ vs _ hmore hvs
          exact ⟨_, .declare (hword'.trans hword) hfirst' hmore', rfl⟩
      | expression hname he =>
          obtain ⟨e', he'⟩ := hexpr _ us _ he h
          obtain ⟨name, us, rfl, hname', _⟩ := h.cons_inv
          exact ⟨_, .expression (hname'.trans hname) he', rfl⟩

theorem Program.recast (n : Nat) : Recastable (Program n) := by
  intro ts us program hprogram h
  have hstatement : Recastable (Statement n) := fun ts us s hs h =>
    (Statement.recast_isOpen n ts us s hs h).imp fun _ => And.left
  obtain ⟨body, hbody⟩ := Sequence.recast hstatement _ us _ hprogram h
  exact ⟨⟨body⟩, hbody⟩

section Sentences

variable {α : Type} {phrases : Nat → Phrases α} {ts : List Token}

/-- Tokens whose kinds are a sentence are a phrase. -/
theorem IsSentence.exists_phrase (hrecast : ∀ n, Recastable (phrases n))
    (h : IsSentence phrases (ts.map Token.kind)) :
    ∃ levels a, phrases levels ts a := by
  obtain ⟨levels, us, a, hphrase, hkinds⟩ := h
  obtain ⟨b, hphrase'⟩ := hrecast levels us ts a hphrase ⟨hkinds.symm⟩
  exact ⟨levels, b, hphrase'⟩

/-- Tokens whose kinds begin a sentence begin a phrase. -/
theorem BeginsSentence.exists_phrase (hrecast : ∀ n, Recastable (phrases n))
    (h : BeginsSentence phrases (ts.map Token.kind)) :
    ∃ levels more a, phrases levels (ts ++ more) a := by
  obtain ⟨kinds, levels, us, a, hphrase, hkinds⟩ := h
  have hspecimens : Token.kind ∘ specimen = id := rfl
  have hrecasts : Recast us (ts ++ kinds.map specimen) := by
    refine ⟨?_⟩
    rw [hkinds, List.map_append, List.map_map, hspecimens, List.map_id]
  obtain ⟨b, hphrase'⟩ := hrecast levels us _ a hphrase hrecasts
  exact ⟨levels, kinds.map specimen, b, hphrase'⟩

end Sentences

end Grammar

end TildeLang
