import Mathlib.Data.List.Chain
import TildeLang.Proofs.Printing

/-!
# What every derivation has

Facts that hold of every phrase of the grammar, each by induction on how the
phrase is put together.

* `Program.leaves_eq` — the tokens of a phrase write the leaves of its tree,
  in their order;
* `Program.calm` — no literal stands directly after an identifier;
* `Statement.wellMade` — an `else` belongs to the nearest `if`, declarations
  declare something, and expressions that are statements begin with a name;
* `Program.levels_le` — printing opens no more levels than the derivation has.
-/

namespace TildeLang

/-- The leaf that a token writes, if it writes one. -/
def Token.leaf? (t : Token) : Option Leaf := t.spelling.leaf?

namespace Token

variable {t : Token}

theorem leaf?_literal {l : Literal} (hkind : l.kind.token = t.kind) (hvalue : l.value = t.value) :
    t.leaf? = some (.literal l) := Spelling.leaf?_literal hkind hvalue

theorem leaf?_name (h : t.kind = .identifier) : t.leaf? = some (.name t.raw) :=
  Spelling.leaf?_name h

theorem leaf?_op {op : BinaryOp} (h : t.kind = op.kind) : t.leaf? = some (.op op) :=
  Spelling.leaf?_op h

theorem leaf?_mark {kind : Kind} (h : t.kind = kind) (hmark : Spelling.isMark kind = true) :
    t.leaf? = none := by
  subst h
  exact Spelling.leaf?_mark hmark

end Token

namespace Grammar

variable {group : Phrases Expr} {ts : List Token} {e : Expr} {n : Nat}

/-! ### Leaves -/

section Leaves

variable (hgroup : ∀ ts e, group ts e → e.leaves = ts.filterMap Token.leaf?)
include hgroup

theorem Parenthesized.leaves_eq (h : Parenthesized group ts e) :
    e.leaves = ts.filterMap Token.leaf? := by
  obtain ⟨hleft, inner, hright⟩ := h
  simp [Token.leaf?_mark hleft rfl, Token.leaf?_mark hright rfl, hgroup _ _ inner]

theorem Primary.leaves_eq (h : Primary group ts e) : e.leaves = ts.filterMap Token.leaf? := by
  cases h with
  | literal hkind hvalue => simp [Expr.leaves, Token.leaf?_literal hkind hvalue]
  | identifier hkind => simp [Expr.leaves, Token.leaf?_name hkind]
  | parenthesized h => exact h.leaves_eq hgroup

theorem Grouped.leaves_eq {ops : List BinaryOp} (h : Grouped ops group ts e) :
    e.leaves = ts.filterMap Token.leaf? := by
  induction h with
  | single only => exact hgroup _ _ only
  | apply first hop hsign last ih =>
      simp [Expr.leaves, ih, hgroup _ _ last, Token.leaf?_op hsign]

theorem Sum.leaves_eq (h : Sum group ts e) : e.leaves = ts.filterMap Token.leaf? :=
  Grouped.leaves_eq (fun _ _ => Grouped.leaves_eq fun _ _ => Primary.leaves_eq hgroup) h

theorem Declared.leaves_eq {d : Declarator} (h : Declared group ts d) :
    d.leaves = ts.filterMap Token.leaf? := by
  cases h with
  | bare hname => simp [Declarator.leaves, Token.leaf?_name hname]
  | initialized hname hequals init =>
      simp [Declarator.leaves, Token.leaf?_name hname, Token.leaf?_mark hequals rfl,
        hgroup _ _ init]

end Leaves

theorem Sequence.leaves_eq {α : Type} {item : Phrases α} {leaves : α → List Leaf} {as : List α}
    (hitem : ∀ ts a, item ts a → leaves a = ts.filterMap Token.leaf?) (h : Sequence item ts as) :
    as.flatMap leaves = ts.filterMap Token.leaf? := by
  induction h with
  | nil => rfl
  | cons head tail ih => rw [List.flatMap_cons, List.filterMap_append, hitem _ _ head, ih]

theorem Assignment.leaves_eq (h : Assignment n ts e) : e.leaves = ts.filterMap Token.leaf? := by
  induction n generalizing ts e with
  | zero => exact h.elim
  | succ n ih =>
      cases h with
      | sum h => exact h.leaves_eq fun _ _ => ih
      | assign hname hequals value =>
          simp [Expr.leaves, Token.leaf?_name hname, Token.leaf?_mark hequals rfl, ih value]

theorem Statement.leaves_eq {s : Stmt} (h : Statement n ts s) :
    s.leaves = ts.filterMap Token.leaf? := by
  induction n generalizing ts s with
  | zero => exact h.elim
  | succ n ih =>
      have hexpr : ∀ ts e, Assignment n ts e → e.leaves = ts.filterMap Token.leaf? :=
        fun _ _ => Assignment.leaves_eq
      cases h with
      | ifThen hword htest hconsequent =>
          simp [Stmt.leaves, Token.leaf?_mark hword rfl, htest.leaves_eq hexpr, ih hconsequent]
      | ifThenElse hword htest hconsequent hclosed hother halternate =>
          simp [Stmt.leaves, Token.leaf?_mark hword rfl, Token.leaf?_mark hother rfl,
            htest.leaves_eq hexpr, ih hconsequent, ih halternate]
      | @block left right ts body hleft hbody hright =>
          have hbody : body.flatMap Stmt.leaves = ts.filterMap Token.leaf? :=
            hbody.leaves_eq fun _ _ => ih
          simp [Stmt.leaves, Stmt.leavesAll_eq, Token.leaf?_mark hleft rfl,
            Token.leaf?_mark hright rfl, hbody]
      | @declare word ts us binding first more hword hfirst hmore =>
          have hword : word.leaf? = none := by
            cases binding <;> exact Token.leaf?_mark hword rfl
          have hmore : more.flatMap Declarator.leaves = us.filterMap Token.leaf? := by
            refine hmore.leaves_eq ?_
            intro ts d hafter
            obtain ⟨hcomma, next⟩ := hafter
            simp [Token.leaf?_mark hcomma rfl, next.leaves_eq hexpr]
          simp [Stmt.leaves, hword, hfirst.leaves_eq hexpr, hmore]
      | expression hname he => exact hexpr _ _ he

/-- **Leaves.**  The tokens of a program write its leaves, in their order. -/
theorem Program.leaves_eq {program : TildeLang.Program} (h : Program n ts program) :
    program.leaves = ts.filterMap Token.leaf? := by
  rw [TildeLang.Program.leaves, Stmt.leavesAll_eq]
  exact Sequence.leaves_eq (fun _ _ => Statement.leaves_eq) h

/-! ### Neighbours -/

/-- No literal stands directly after an identifier. -/
def Calm (ts : List Token) : Prop :=
  ts.IsChain fun t u => t.kind = .identifier → u.kind.isLiteral = false

theorem Calm.singleton (t : Token) : Calm [t] := List.isChain_singleton t

theorem Calm.append {us : List Token} (hts : Calm ts) (hus : Calm us)
    (hhead : startsWith Kind.isLiteral us = false) : Calm (ts ++ us) := by
  refine List.isChain_append.mpr ⟨hts, hus, ?_⟩
  intro t _ u hu _
  cases us with
  | nil => cases hu
  | cons v us =>
      obtain rfl : v = u := by simpa using hu
      exact hhead

theorem Calm.cons {t : Token} (ht : t.kind ≠ .identifier) (hts : Calm ts) : Calm (t :: ts) := by
  cases ts with
  | nil => exact .singleton t
  | cons u ts => exact List.isChain_cons_cons.mpr ⟨fun h => absurd h ht, hts⟩

theorem startsWith_append_eq_false {accepts : Kind → Bool} {us : List Token} (hne : ts ≠ [])
    (h : startsWith accepts ts = false) : startsWith accepts (ts ++ us) = false := by
  cases ts with
  | nil => exact absurd rfl hne
  | cons t ts => exact h

/-- A phrase may follow a token, whatever it is, if it does not begin with a
literal. -/
theorem Calm.cons_of_head {t : Token} (hts : Calm ts)
    (hhead : startsWith Kind.isLiteral ts = false) : Calm (t :: ts) :=
  (Calm.singleton t).append hts hhead

section Calm

variable (hgroup : ∀ ts e, group ts e → Calm ts)
include hgroup

theorem Parenthesized.calm (h : Parenthesized group ts e) : Calm ts := by
  obtain ⟨hleft, inner, hright⟩ := h
  refine .cons (by simp [hleft]) ((hgroup _ _ inner).append (.singleton _) ?_)
  simp [hright, Kind.isLiteral]

theorem Primary.calm (h : Primary group ts e) : Calm ts := by
  cases h with
  | literal hkind hvalue => exact .singleton _
  | identifier hkind => exact .singleton _
  | parenthesized h => exact h.calm hgroup

theorem Grouped.calm {ops : List BinaryOp} (h : Grouped ops group ts e) : Calm ts := by
  induction h with
  | single only => exact hgroup _ _ only
  | @apply ts us sign op left right first hop hsign last ih =>
      refine ih.append (.cons ?_ (hgroup _ _ last)) ?_
      · cases op <;> simp [hsign, BinaryOp.kind]
      · cases op <;> simp [hsign, BinaryOp.kind, Kind.isLiteral]

theorem Sum.calm (h : Sum group ts e) : Calm ts :=
  Grouped.calm (fun _ _ => Grouped.calm fun _ _ => Primary.calm hgroup) h

theorem Declared.calm {d : Declarator} (h : Declared group ts d) : Calm ts := by
  cases h with
  | bare hname => exact .singleton _
  | initialized hname hequals init =>
      refine .cons_of_head (.cons (by simp [hequals]) (hgroup _ _ init)) ?_
      simp [hequals, Kind.isLiteral]

end Calm

theorem Sequence.calm {α : Type} {item : Phrases α} {as : List α}
    (hitem : ∀ ts a, item ts a → Calm ts)
    (hhead : ∀ ts a, item ts a → ts ≠ [] ∧ startsWith Kind.isLiteral ts = false)
    (h : Sequence item ts as) : Calm ts ∧ startsWith Kind.isLiteral ts = false := by
  induction h with
  | nil => exact ⟨List.isChain_nil, rfl⟩
  | @cons ts us a as head tail ih =>
      obtain ⟨hne, hfirst⟩ := hhead ts a head
      exact ⟨(hitem ts a head).append ih.1 ih.2, startsWith_append_eq_false hne hfirst⟩

theorem Assignment.calm (h : Assignment n ts e) : Calm ts := by
  induction n generalizing ts e with
  | zero => exact h.elim
  | succ n ih =>
      cases h with
      | sum h => exact h.calm fun _ _ => ih
      | assign hname hequals value =>
          refine .cons_of_head (.cons (by simp [hequals]) (ih value)) ?_
          simp [hequals, Kind.isLiteral]

/-- No statement begins with a literal. -/
theorem Statement.begins_calm {s : Stmt} (h : Statement n ts s) :
    ts ≠ [] ∧ startsWith Kind.isLiteral ts = false := by
  have hbegins := h.begins
  cases ts with
  | nil => simp at hbegins
  | cons t ts =>
      rw [startsWith_cons] at hbegins ⊢
      refine ⟨List.cons_ne_nil t ts, ?_⟩
      cases hkind : t.kind <;> simp_all [beginsStatement, Kind.isLiteral]

theorem Statement.calm {s : Stmt} (h : Statement n ts s) : Calm ts := by
  induction n generalizing ts s with
  | zero => exact h.elim
  | succ n ih =>
      have hexpr : ∀ ts e, Assignment n ts e → Calm ts := fun _ _ => Assignment.calm
      cases h with
      | ifThen hword htest hconsequent =>
          exact .cons (by simp [hword])
            ((htest.calm hexpr).append (ih hconsequent) hconsequent.begins_calm.2)
      | @ifThenElse word other ts us vs test consequent alternate hword htest hconsequent hclosed
          hother halternate =>
          have helse : Calm (other :: vs) := .cons (by simp [hother]) (ih halternate)
          have hboth := (ih hconsequent).append helse (by simp [hother, Kind.isLiteral])
          obtain ⟨hne, hfirst⟩ := hconsequent.begins_calm
          exact .cons (by simp [hword])
            ((htest.calm hexpr).append hboth (startsWith_append_eq_false hne hfirst))
      | block hleft hbody hright =>
          have hbody := (hbody.calm (fun _ _ => ih) fun _ _ => Statement.begins_calm).1
          refine .cons (by simp [hleft]) (hbody.append (.singleton _) ?_)
          simp [hright, Kind.isLiteral]
      | @declare word ts us binding first more hword hfirst hmore =>
          have hmore := hmore.calm
            (by
              intro ts d hafter
              obtain ⟨hcomma, next⟩ := hafter
              exact .cons (by simp [hcomma]) (next.calm hexpr))
            (by
              intro ts d hafter
              obtain ⟨hcomma, next⟩ := hafter
              simp [hcomma, Kind.isLiteral])
          refine .cons ?_ ((hfirst.calm hexpr).append hmore.1 hmore.2)
          cases binding <;> simp [hword, Binding.kind]
      | expression hname he => exact hexpr _ _ he

/-- **Neighbours.**  In a program no literal stands directly after an
identifier. -/
theorem Program.calm {program : TildeLang.Program} (h : Program n ts program) : Calm ts :=
  (Sequence.calm (fun _ _ => Statement.calm) (fun _ _ => Statement.begins_calm) h).1

/-! ### Statements -/

/-- An expression that begins with a name and holds together with at least
some strength. -/
def LedByName (strength : Nat) (e : Expr) : Prop :=
  e.leadsWithName = true ∧ strength ≤ e.strength

theorem Primary.ledByName (h : Primary group ts e)
    (hname : startsWith (· == .identifier) ts = true) : LedByName 3 e := by
  cases h with
  | @literal t l hkind hvalue =>
      have hliteral := l.kind.isLiteral_token
      have hname : t.kind = .identifier := by simpa using hname
      simp [hkind, hname, Kind.isLiteral] at hliteral
  | identifier hkind => exact ⟨rfl, Nat.le_refl 3⟩
  | parenthesized h =>
      obtain ⟨hleft, inner, hright⟩ := h
      simp [hleft] at hname

theorem Grouped.ledByName {ops : List BinaryOp} {operand : Phrases Expr} {strength : Nat}
    (hops : ∀ op ∈ ops, op.strength = strength)
    (hoperand : ∀ ts e, operand ts e → startsWith (· == .identifier) ts = true →
      LedByName (strength + 1) e)
    (h : Grouped ops operand ts e) (hname : startsWith (· == .identifier) ts = true) :
    LedByName strength e := by
  induction h with
  | single only =>
      obtain ⟨hleads, hle⟩ := hoperand _ _ only hname
      exact ⟨hleads, Nat.le_of_succ_le hle⟩
  | @apply ts us sign op left right first hop hsign last ih =>
      have hstart : startsWith (· == .identifier) ts = true := by
        cases ts with
        | nil => cases op <;> simp [hsign, BinaryOp.kind] at hname
        | cons t ts => exact hname
      obtain ⟨hleads, hle⟩ := ih hstart
      have hop := hops op hop
      exact ⟨by simp [Expr.leadsWithName, hleads, hop, hle], Nat.le_of_eq hop.symm⟩

theorem Sum.ledByName (h : Sum group ts e) (hname : startsWith (· == .identifier) ts = true) :
    LedByName 1 e := by
  refine Grouped.ledByName (by decide) (fun ts e h hname => ?_) h hname
  exact Grouped.ledByName (by decide) (fun _ _ => Primary.ledByName) h hname

/-- An expression that begins with an identifier leads with a name. -/
theorem Assignment.leadsWithName (h : Assignment n ts e)
    (hname : startsWith (· == .identifier) ts = true) : e.leadsWithName = true := by
  cases n with
  | zero => exact h.elim
  | succ n =>
      cases h with
      | sum h => exact (h.ledByName hname).1
      | assign _ hequals value => rfl

theorem Sequence.wellMade {item : Phrases Stmt} {body : List Stmt}
    (hitem : ∀ ts s, item ts s → ∀ s' ∈ s.statements, s'.WellMade)
    (h : Sequence item ts body) : ∀ s ∈ Stmt.statementsAll body, s.WellMade := by
  intro s hs
  rw [Stmt.statementsAll_eq] at hs
  obtain ⟨outer, houter, hs⟩ := List.mem_flatMap.mp hs
  exact h.forall_mem hitem outer houter s hs

/-- **Statements.**  Every statement inside a derived one is well made. -/
theorem Statement.wellMade {s : Stmt} (h : Statement n ts s) :
    ∀ s' ∈ s.statements, s'.WellMade := by
  induction n generalizing ts s with
  | zero => exact h.elim
  | succ n ih =>
      cases h with
      | ifThen hword htest hconsequent =>
          rw [Stmt.statements, List.forall_mem_cons]
          exact ⟨trivial, ih hconsequent⟩
      | ifThenElse hword htest hconsequent hclosed hother halternate =>
          rw [Stmt.statements, List.forall_mem_cons, List.forall_mem_append]
          exact ⟨hclosed, ih hconsequent, ih halternate⟩
      | block hleft hbody hright =>
          rw [Stmt.statements, List.forall_mem_cons]
          exact ⟨trivial, hbody.wellMade fun _ _ => ih⟩
      | declare hword hfirst hmore =>
          rw [Stmt.statements, List.forall_mem_singleton]
          exact List.cons_ne_nil _ _
      | expression hname he =>
          rw [Stmt.statements, List.forall_mem_singleton]
          exact he.leadsWithName (by simp [hname])

theorem Program.wellMade {program : TildeLang.Program} (h : Program n ts program) :
    ∀ s ∈ program.statements, s.WellMade :=
  Sequence.wellMade (fun _ _ => Statement.wellMade) h

/-! ### Levels -/

/-- An expression that can stand where some strength is asked without opening
more than `n` levels, with its parentheses if it needs them. -/
structure FitsIn (n strength : Nat) (e : Expr) : Prop where
  depth : e.depth ≤ n
  grouped : strength ≤ e.strength ∨ e.depth < n

theorem Primary.fitsIn (hgroup : ∀ ts e, group ts e → e.levels ≤ n) (h : Primary group ts e) :
    FitsIn n 3 e := by
  cases h with
  | literal hkind hvalue => exact ⟨Nat.zero_le n, .inl (Nat.le_refl 3)⟩
  | identifier hkind => exact ⟨Nat.zero_le n, .inl (Nat.le_refl 3)⟩
  | parenthesized h =>
      obtain ⟨hleft, inner, hright⟩ := h
      have hlevels := hgroup _ _ inner
      exact ⟨Nat.le_of_succ_le hlevels, .inr hlevels⟩

theorem Grouped.fitsIn {ops : List BinaryOp} {operand : Phrases Expr} {strength : Nat}
    (hops : ∀ op ∈ ops, op.strength = strength)
    (hoperand : ∀ ts e, operand ts e → FitsIn n (strength + 1) e)
    (h : Grouped ops operand ts e) : FitsIn n strength e := by
  induction h with
  | single only =>
      obtain ⟨hdepth, hgrouped⟩ := hoperand _ _ only
      exact ⟨hdepth, hgrouped.imp_left Nat.le_of_succ_le⟩
  | @apply ts us sign op left right first hop hsign last ih =>
      obtain ⟨hleft, hleft'⟩ := ih
      obtain ⟨hright, hright'⟩ := hoperand _ _ last
      have hop := hops op hop
      refine ⟨?_, .inl (Nat.le_of_eq hop.symm)⟩
      rw [Expr.depth, hop]
      refine Nat.max_le.mpr ⟨?_, ?_⟩
      · split <;> omega
      · split <;> omega

theorem Sum.depth_le (hgroup : ∀ ts e, group ts e → e.levels ≤ n) (h : Sum group ts e) :
    e.depth ≤ n := by
  have hproduct : ∀ ts e, Product group ts e → FitsIn n 2 e := fun _ _ =>
    Grouped.fitsIn (by decide) fun _ _ => Primary.fitsIn hgroup
  exact (Grouped.fitsIn (by decide) hproduct h : FitsIn n 1 e).depth

theorem Assignment.levels_le (h : Assignment n ts e) : e.levels ≤ n := by
  induction n generalizing ts e with
  | zero => exact h.elim
  | succ n ih =>
      refine Nat.succ_le_succ ?_
      cases h with
      | sum h => exact h.depth_le fun _ _ => ih
      | assign hname hequals value => exact ih value

theorem Declared.levels_le {d : Declarator} (h : Declared (Assignment n) ts d) :
    d.levels ≤ n := by
  cases h with
  | bare hname => exact Nat.zero_le n
  | initialized hname hequals init => exact init.levels_le

theorem Parenthesized.levels_le (h : Parenthesized (Assignment n) ts e) : e.levels ≤ n := by
  obtain ⟨hleft, inner, hright⟩ := h
  exact inner.levels_le

theorem Statement.levels_le {s : Stmt} (h : Statement n ts s) : s.levels ≤ n := by
  induction n generalizing ts s with
  | zero => exact h.elim
  | succ n ih =>
      cases h with
      | ifThen hword htest hconsequent =>
          exact Nat.succ_le_succ (Nat.max_le.mpr ⟨htest.levels_le, ih hconsequent⟩)
      | ifThenElse hword htest hconsequent hclosed hother halternate =>
          exact Nat.succ_le_succ (Nat.max_le.mpr
            ⟨htest.levels_le, Nat.max_le.mpr ⟨ih hconsequent, ih halternate⟩⟩)
      | block hleft hbody hright =>
          have hbody := hbody.forall_mem fun _ _ => ih
          exact Nat.succ_le_succ (Stmt.levelsAll_le_iff.mpr hbody)
      | declare hword hfirst hmore =>
          have hmore := hmore.forall_mem fun _ _ ⟨_, next⟩ => next.levels_le
          exact Nat.succ_le_succ (Declarator.foldr_levels_le_iff.mpr
            (List.forall_mem_cons.mpr ⟨hfirst.levels_le, hmore⟩))
      | expression hname he => exact Nat.succ_le_succ he.levels_le

/-- **Levels.**  Printing a derived program opens no more levels than its
derivation has. -/
theorem Program.levels_le {program : TildeLang.Program} (h : Program n ts program) :
    program.levels ≤ n :=
  Stmt.levelsAll_le_iff.mpr (Sequence.forall_mem h fun _ _ => Statement.levels_le)

end Grammar

end TildeLang
