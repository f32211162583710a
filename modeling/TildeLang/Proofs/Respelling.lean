import TildeLang.Proofs.Printing

/-!
# Phrases and their words

A phrase depends on the words of its tokens alone.  Tokens at other places that
are spelled in the same way stand for the same tree, so a phrase can be moved
to another source; and programs can be put one after another.

* `Program.respell` — tokens that are spelled in the same way make the same
  program;
* `Program.append` — one program after another.
-/

namespace TildeLang

/-- The second tokens are spelled like the first. -/
def Respelled (ts us : List Token) : Prop := us.map Token.spelling = ts.map Token.spelling

namespace Respelled

variable {ts ts' us : List Token} {t : Token}

theorem nil_inv (h : Respelled [] us) : us = [] := List.map_eq_nil_iff.mp h

theorem cons_inv (h : Respelled (t :: ts) us) :
    ∃ u vs, us = u :: vs ∧ u.spelling = t.spelling ∧ Respelled ts vs :=
  List.map_eq_cons_iff.mp h

theorem append_inv (h : Respelled (ts ++ ts') us) :
    ∃ vs vs', us = vs ++ vs' ∧ Respelled ts vs ∧ Respelled ts' vs' := by
  unfold Respelled at h
  rw [List.map_append] at h
  exact List.map_eq_append_iff.mp h

theorem singleton_inv (h : Respelled [t] us) : ∃ u, us = [u] ∧ u.spelling = t.spelling := by
  obtain ⟨u, vs, rfl, hspelling, hvs⟩ := h.cons_inv
  obtain rfl := hvs.nil_inv
  exact ⟨u, rfl, hspelling⟩

end Respelled

theorem Token.kind_of_spelling {t u : Token} {kind : Kind} (h : u.spelling = t.spelling)
    (hkind : t.kind = kind) : u.kind = kind :=
  (congrArg Spelling.kind h).trans hkind

theorem Token.raw_of_spelling {t u : Token} (h : u.spelling = t.spelling) : u.raw = t.raw :=
  congrArg Spelling.text h

namespace Grammar

open Token

/-- The phrases depend on the words of their tokens alone. -/
def Respellable {α : Type} (phrases : Phrases α) : Prop :=
  ∀ ts us a, phrases ts a → Respelled ts us → phrases us a

variable {group : Phrases Expr}

theorem Parenthesized.respell (hgroup : Respellable group) :
    Respellable (Parenthesized group) := by
  intro _ us e hparenthesized h
  obtain ⟨hleft, inner, hright⟩ := hparenthesized
  obtain ⟨left, us, rfl, hleft', h⟩ := h.cons_inv
  obtain ⟨us, vs, rfl, hus, hvs⟩ := h.append_inv
  obtain ⟨right, rfl, hright'⟩ := hvs.singleton_inv
  exact .mk (kind_of_spelling hleft' hleft) (hgroup _ _ _ inner hus)
    (kind_of_spelling hright' hright)

theorem Primary.respell (hgroup : Respellable group) : Respellable (Primary group) := by
  intro ts us e hprimary h
  cases hprimary with
  | literal hkind hvalue =>
      obtain ⟨u, rfl, hu⟩ := h.singleton_inv
      have hvalue' : u.value = _ := congrArg Spelling.value hu
      exact .literal (kind_of_spelling hu hkind.symm).symm (hvalue.trans hvalue'.symm)
  | identifier hkind =>
      obtain ⟨u, rfl, hu⟩ := h.singleton_inv
      rw [← raw_of_spelling hu]
      exact .identifier (kind_of_spelling hu hkind)
  | parenthesized hinner =>
      exact .parenthesized (Parenthesized.respell hgroup _ _ _ hinner h)

theorem Grouped.respell {ops : List BinaryOp} {operand : Phrases Expr}
    (hoperand : Respellable operand) : Respellable (Grouped ops operand) := by
  intro ts us e hgrouped h
  induction hgrouped generalizing us with
  | single only => exact .single (hoperand _ _ _ only h)
  | apply first hop hsign last ih =>
      obtain ⟨us, vs, rfl, hus, hvs⟩ := h.append_inv
      obtain ⟨sign, vs, rfl, hsign', hvs⟩ := hvs.cons_inv
      exact .apply (ih us hus) hop (kind_of_spelling hsign' hsign) (hoperand _ _ _ last hvs)

theorem Assignment.respell (n : Nat) : Respellable (Assignment n) := by
  induction n with
  | zero => exact fun _ _ _ h => h.elim
  | succ n ih =>
      intro ts us e hassignment h
      cases hassignment with
      | sum hsum =>
          exact .sum (Grouped.respell (Grouped.respell (Primary.respell ih)) _ _ _ hsum h)
      | assign hname hequals value =>
          obtain ⟨name, us, rfl, hname', h⟩ := h.cons_inv
          obtain ⟨equals, us, rfl, hequals', h⟩ := h.cons_inv
          rw [← raw_of_spelling hname']
          exact .assign (kind_of_spelling hname' hname) (kind_of_spelling hequals' hequals)
            (ih _ _ _ value h)

theorem Declared.respell (hgroup : Respellable group) : Respellable (Declared group) := by
  intro ts us d hdeclared h
  cases hdeclared with
  | bare hname =>
      obtain ⟨name, rfl, hname'⟩ := h.singleton_inv
      rw [← raw_of_spelling hname']
      exact .bare (kind_of_spelling hname' hname)
  | initialized hname hequals init =>
      obtain ⟨name, us, rfl, hname', h⟩ := h.cons_inv
      obtain ⟨equals, us, rfl, hequals', h⟩ := h.cons_inv
      rw [← raw_of_spelling hname']
      exact .initialized (kind_of_spelling hname' hname) (kind_of_spelling hequals' hequals)
        (hgroup _ _ _ init h)

theorem AfterComma.respell {α : Type} {item : Phrases α} (hitem : Respellable item) :
    Respellable (AfterComma item) := by
  intro _ us a hafter h
  obtain ⟨hcomma, next⟩ := hafter
  obtain ⟨comma, us, rfl, hcomma', h⟩ := h.cons_inv
  exact .mk (kind_of_spelling hcomma' hcomma) (hitem _ _ _ next h)

theorem Sequence.respell {α : Type} {item : Phrases α} (hitem : Respellable item) :
    Respellable (Sequence item) := by
  intro ts us as hsequence h
  induction hsequence generalizing us with
  | nil =>
      obtain rfl := h.nil_inv
      exact .nil
  | cons head tail ih =>
      obtain ⟨us, vs, rfl, hus, hvs⟩ := h.append_inv
      exact .cons (hitem _ _ _ head hus) (ih vs hvs)

theorem Statement.respell (n : Nat) : Respellable (Statement n) := by
  induction n with
  | zero => exact fun _ _ _ h => h.elim
  | succ n ih =>
      intro ts us s hstatement h
      have hexpr := Assignment.respell n
      have htests := Parenthesized.respell hexpr
      cases hstatement with
      | ifThen hword htest hconsequent =>
          obtain ⟨word, us, rfl, hword', h⟩ := h.cons_inv
          obtain ⟨us, vs, rfl, hus, hvs⟩ := h.append_inv
          exact .ifThen (kind_of_spelling hword' hword) (htests _ _ _ htest hus)
            (ih _ _ _ hconsequent hvs)
      | ifThenElse hword htest hconsequent hclosed hother halternate =>
          obtain ⟨word, us, rfl, hword', h⟩ := h.cons_inv
          obtain ⟨us, rest, rfl, hus, hrest⟩ := h.append_inv
          obtain ⟨vs, rest, rfl, hvs, hrest⟩ := hrest.append_inv
          obtain ⟨other, ws, rfl, hother', hws⟩ := hrest.cons_inv
          exact .ifThenElse (kind_of_spelling hword' hword) (htests _ _ _ htest hus)
            (ih _ _ _ hconsequent hvs) hclosed (kind_of_spelling hother' hother)
            (ih _ _ _ halternate hws)
      | block hleft hbody hright =>
          obtain ⟨left, us, rfl, hleft', h⟩ := h.cons_inv
          obtain ⟨us, vs, rfl, hus, hvs⟩ := h.append_inv
          obtain ⟨right, rfl, hright'⟩ := hvs.singleton_inv
          exact .block (kind_of_spelling hleft' hleft) (Sequence.respell ih _ _ _ hbody hus)
            (kind_of_spelling hright' hright)
      | declare hword hfirst hmore =>
          obtain ⟨word, us, rfl, hword', h⟩ := h.cons_inv
          obtain ⟨us, vs, rfl, hus, hvs⟩ := h.append_inv
          have hdeclared := Declared.respell hexpr
          exact .declare (kind_of_spelling hword' hword) (hdeclared _ _ _ hfirst hus)
            (Sequence.respell (AfterComma.respell hdeclared) _ _ _ hmore hvs)
      | expression hname he =>
          have he' := hexpr _ _ _ he h
          obtain ⟨name, us, rfl, hname', _⟩ := h.cons_inv
          exact .expression (kind_of_spelling hname' hname) he'

/-- **Words.**  Tokens that are spelled like those of a program make the same
program. -/
theorem Program.respell (n : Nat) : Respellable (Program n) := by
  intro ts us program hprogram h
  exact Sequence.respell (Statement.respell n) _ _ _ hprogram h

theorem Sequence.append {α : Type} {item : Phrases α} {ts us : List Token} {as bs : List α}
    (h : Sequence item ts as) (h' : Sequence item us bs) :
    Sequence item (ts ++ us) (as ++ bs) := by
  induction h with
  | nil => exact h'
  | cons head tail ih =>
      rw [List.append_assoc]
      exact .cons head ih

/-- **One program after another.**  Statements have no mark at their ends, so those
of a second program can follow those of a first. -/
theorem Program.append {n : Nat} {ts us : List Token} {first second : TildeLang.Program}
    (h : Program n ts first) (h' : Program n us second) :
    Program n (ts ++ us) ⟨first.body ++ second.body⟩ :=
  Sequence.append h h'

end Grammar

end TildeLang
