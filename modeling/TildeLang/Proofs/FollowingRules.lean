import TildeLang.Proofs.Following
import TildeLang.Proofs.ReadingRules

/-!
# The rules follow the grammar

Every rule of the parser follows the derivations of its production, up to
tokens that cannot carry the phrase on.  Which tokens those are is the only
thing that a rule has to know about what comes after it:

* an expression is carried on by an operator or an equals sign;
* a statement is carried on by these, by a comma, and, where it ends in an
  `if` without an `else`, by an `else`.

No token that can begin a statement is among them, so statements may stand one
after another without a separator.

* `assignment_follows`, `statement_follows`, `program_follows`.
-/

namespace TildeLang

open Grammar

/-- The kinds of token that carry on an expression. -/
def Grammar.continuesExpression : Kind → Bool
  | .add | .sub | .multiply | .divide | .assign => true
  | _ => false

/-- The kinds of token that carry on a statement, whatever its form. -/
def Grammar.continuesStatement (kind : Kind) : Bool :=
  continuesExpression kind || kind == .comma

/-- Tokens that do not carry a statement on. -/
structure Stmt.EndsBefore (s : Stmt) (after : List Token) : Prop where
  continues : startsWith continuesStatement after = false
  noElse : s.isOpen = true → startsWith (· == .elseWord) after = false

namespace Parse

variable {horizon : Option Nat} {p : Parser} {n : Nat} {ts after : List Token}

theorem leads_within_following {α : Type} {rule : Rule} {body : Parse α} {a : α}
    (h : body.Leads (p.entering rule) (.following horizon a after)) :
    (within rule body).Leads p (.following horizon a after) :=
  leads_within.mpr h

theorem Orderly.fail {α : Type} {rule : Rule} {cause : Cursor → ParseCause} :
    Orderly (Parse.fail rule cause : Parse α) := fun _ => Nat.le_refl _

theorem Orderly.target {bare : Bool} {left : Expr} : Orderly (Parse.target bare left) := by
  cases left with
  | identifier name => exact .ite (.pure name) .fail
  | literal l => exact .fail
  | binary op left right => exact .fail
  | assign name value => exact .fail

/-! ### Expressions -/

theorem identifier_follows {t : Token} (hkind : t.kind = .identifier)
    (hshows : p.Shows horizon (t :: after)) :
    identifier.Leads p (.following horizon t.raw after) :=
  (eat_follows hshows hkind).follow (fun _ h => leads_pure_following h) fun _ => .pure _

theorem literal_follows {t : Token} {l : Literal} (hkind : l.kind.token = t.kind)
    (hvalue : l.value = t.value) (hshows : p.Shows horizon (t :: after)) :
    literal.Leads p (.following horizon l after) := by
  obtain ⟨k, _⟩ := l
  subst hvalue
  have hk : LiteralKind.ofToken? t.kind = some k := LiteralKind.ofToken?_eq_some_iff.mpr hkind
  unfold literal
  rw [leads_peek_bind, hshows.kind?]
  simp only [List.head?_cons, Option.map_some, Option.bind_some, hk]
  exact (eat_follows hshows hkind.symm).follow (fun _ h => leads_pure_following h)
    fun _ => .pure _

section Expressions

variable
  (hinner : ∀ p ts e after, Assignment n ts e → startsWith continuesExpression after = false →
    p.Shows horizon (ts ++ after) → (assignment n).Leads p (.following horizon e after))
include hinner

theorem parenthesized_follows {e : Expr} (h : Parenthesized (Assignment n) ts e)
    (hshows : p.Shows horizon (ts ++ after)) :
    (parenthesized (assignment n)).Leads p (.following horizon e after) := by
  obtain @⟨left, right, ts, _, hleft, inner, hright⟩ := h
  have horderly := Orderly.of_reads (assignment_reads n)
  rw [List.cons_append, List.append_assoc] at hshows
  refine (eat_follows hshows hleft).follow ?_ fun _ => .bind horderly fun _ =>
    .bind .eat fun _ => .pure _
  intro p₁ hshows₁
  have hstop : startsWith continuesExpression ([right] ++ after) = false := by
    simp [hright, continuesExpression]
  refine (hinner p₁ ts e _ inner hstop hshows₁).follow ?_ fun _ => .bind .eat fun _ => .pure _
  intro p₂ hshows₂
  exact (eat_follows hshows₂ hright).follow (fun _ h => leads_pure_following h) fun _ => .pure _

theorem primary_follows {e : Expr} (h : Primary (Assignment n) ts e)
    (hshows : p.Shows horizon (ts ++ after)) :
    (primary (assignment n)).Leads p (.following horizon e after) := by
  unfold primary
  rw [leads_peek_bind, hshows.kind?]
  cases h with
  | @literal t l hkind hvalue =>
      have hliteral : t.kind.isLiteral = true := hkind ▸ l.kind.isLiteral_token
      have hread : (do return .literal (← literal) : Parse Expr).Leads p
          (.following horizon (.literal l) after) :=
        (literal_follows hkind hvalue hshows).follow (fun _ h => leads_pure_following h)
          fun _ => .pure _
      cases hkind : t.kind <;> simp_all [Kind.isLiteral]
  | @identifier t hkind =>
      simp only [List.cons_append, List.nil_append, List.head?_cons, Option.map_some, hkind]
      exact (identifier_follows hkind hshows).follow (fun _ h => leads_pure_following h)
        fun _ => .pure _
  | parenthesized h =>
      have hread := parenthesized_follows hinner h hshows
      obtain @⟨left, right, ts, _, hleft, inner, hright⟩ := h
      simp only [List.cons_append, List.head?_cons, Option.map_some, hleft]
      exact hread

theorem multiplicative_follows {e : Expr} (h : Product (Assignment n) ts e)
    (hstop : startsWith (fun kind => (multiplicativeOp? kind).isSome) after = false)
    (hshows : p.Shows horizon (ts ++ after)) :
    (multiplicative (assignment n)).Leads p (.following horizon e after) := by
  have hreads : ∀ p, (primary (assignment n)).Leads p
      (.reading p n fun m => Primary (Assignment m)) :=
    fun p => primary_reads (assignment_reads n)
  refine leftGrouped_follows (fun _ => True) multiplicativeOp?_eq_some_iff
    (fun p _ _ => size_le_of_reads (hreads p)) (.of_reads hreads) ?_ ?_ h trivial hstop hshows
  · intro p ts e after hprimary _ hshows
    exact primary_follows hinner hprimary hshows
  · intros
    trivial

theorem additive_follows {e : Expr} (h : Sum (Assignment n) ts e)
    (hproduct : startsWith (fun kind => (multiplicativeOp? kind).isSome) after = false)
    (hsum : startsWith (fun kind => (additiveOp? kind).isSome) after = false)
    (hshows : p.Shows horizon (ts ++ after)) :
    (additive (assignment n)).Leads p (.following horizon e after) := by
  have hreads := multiplicative_reads (assignment_reads n)
  refine leftGrouped_follows
    (startsWith (fun kind => (multiplicativeOp? kind).isSome) · = false) additiveOp?_eq_some_iff
    (fun p _ _ => size_le_of_reads (hreads p)) (.of_reads hreads) ?_ ?_ h hproduct hsum hshows
  · intro p ts e after hproduct hstop hshows
    exact multiplicative_follows hinner hproduct hstop hshows
  · intro sign us op hop hkind
    cases op <;> simp_all [sumOps, BinaryOp.kind, multiplicativeOp?]

end Expressions

/-- **Expressions.**  The rule for assignments follows the expressions that
have at most as many levels as it may open. -/
theorem assignment_follows (n : Nat) (p : Parser) (ts : List Token) (e : Expr)
    (after : List Token) (h : Assignment n ts e)
    (hstop : startsWith continuesExpression after = false)
    (hshows : p.Shows horizon (ts ++ after)) :
    (assignment n).Leads p (.following horizon e after) := by
  induction n generalizing p ts e after with
  | zero => exact h.elim
  | succ n ih =>
      have horderly := Orderly.of_reads (assignment_reads n)
      have hrest : ∀ bare left, Orderly (do
          if (← peek) == some .assign then
            let name ← target bare left
            let _ ← eat .assign .assignmentExpression
            let value ← assignment n
            return .assign name value
          else
            return left : Parse Expr) := fun bare left =>
        .peek_bind fun _ => .ite
          (.bind .target fun _ => .bind .eat fun _ => .bind horderly fun _ => .pure _) (.pure _)
      refine leads_within_following (leads_peek_bind.mpr ?_)
      have hshows : (p.entering .assignmentExpression).Shows horizon (ts ++ after) := hshows
      generalize p.entering .assignmentExpression = p at hshows ⊢
      cases h with
      | sum h =>
          refine (additive_follows ih h ?_ ?_ hshows).follow ?_ (hrest _)
          · refine startsWith_eq_false_of_imp ?_ hstop
            intro kind
            cases kind <;> simp [multiplicativeOp?, continuesExpression]
          · refine startsWith_eq_false_of_imp ?_ hstop
            intro kind
            cases kind <;> simp [additiveOp?, continuesExpression]
          intro p' hshows'
          have hno : ¬(p'.kind? == some .assign) = true := by
            simpa using hshows'.kind?_ne hstop rfl
          rw [leads_peek_bind, if_neg hno]
          exact leads_pure_following hshows'
      | @assign name equals ts e hname hequals value =>
          have hshows : p.Shows horizon ([name] ++ (equals :: (ts ++ after))) := hshows
          have hbare : p.kind? = some .identifier := by
            rw [hshows.kind?]
            simp [hname]
          have hleft : Sum (Assignment n) [name] (.identifier name.raw) :=
            .single (.single (.identifier hname))
          refine (additive_follows ih hleft ?_ ?_ hshows).follow ?_ (hrest _)
          · simp [hequals, multiplicativeOp?]
          · simp [hequals, additiveOp?]
          intro p₁ hshows₁
          have hahead : p₁.kind? = some .assign := by
            rw [hshows₁.kind?]
            simp [hequals]
          rw [leads_peek_bind, hahead, hbare]
          refine (eat_follows hshows₁ hequals).follow ?_ fun _ => .bind horderly fun _ => .pure _
          intro p₂ hshows₂
          exact (ih p₂ ts e after value hstop hshows₂).follow
            (fun _ h => leads_pure_following h) fun _ => .pure _

/-! ### Statements -/

theorem declarator_follows {d : Declarator} (h : Declared (Assignment n) ts d)
    (hstop : startsWith continuesExpression after = false)
    (hshows : p.Shows horizon (ts ++ after)) :
    (declarator (assignment n)).Leads p (.following horizon d after) := by
  have horderly := Orderly.of_reads (assignment_reads n)
  have hrest : ∀ name, Orderly (do
      if (← peek) == some .assign then
        let _ ← eat .assign .variableInitializer
        let init ← assignment n
        return ⟨name, some init⟩
      else
        return ⟨name, none⟩ : Parse Declarator) := fun name =>
    .peek_bind fun _ => .ite (.bind .eat fun _ => .bind horderly fun _ => .pure _) (.pure _)
  cases h with
  | @bare name hname =>
      refine (identifier_follows hname hshows).follow ?_ hrest
      intro p' hshows'
      have hno : ¬(p'.kind? == some .assign) = true := by
        simpa using hshows'.kind?_ne hstop rfl
      rw [leads_peek_bind, if_neg hno]
      exact leads_pure_following hshows'
  | @initialized name equals ts e hname hequals init =>
      refine (identifier_follows hname hshows).follow ?_ hrest
      intro p₁ hshows₁
      have hahead : p₁.kind? = some .assign := by
        rw [hshows₁.kind?]
        simp [hequals]
      rw [leads_peek_bind, hahead]
      refine (eat_follows hshows₁ hequals).follow ?_ fun _ => .bind horderly fun _ => .pure _
      intro p₂ hshows₂
      exact (assignment_follows n p₂ ts e after init hstop hshows₂).follow
        (fun _ h => leads_pure_following h) fun _ => .pure _

theorem declaration_follows {word : Token} {us : List Token} {binding : Binding}
    {first : Declarator} {more : List Declarator} (hword : word.kind = binding.kind)
    (hfirst : Declared (Assignment n) ts first)
    (hmore : Sequence (AfterComma (Declared (Assignment n))) us more)
    (hstop : startsWith continuesStatement after = false)
    (hshows : p.Shows horizon (word :: (ts ++ (us ++ after)))) :
    (declaration (assignment n) binding).Leads p
      (.following horizon (.declare binding (first :: more)) after) := by
  have hloop : Orderly (collectWhile (· == .comma) (do
      let _ ← eat .comma .variableDeclarationList
      declarator (assignment n))) := .collectWhile (.of_reads (nextDeclarator_reads n))
  have hexpression : startsWith continuesExpression after = false :=
    startsWith_eq_false_of_imp (fun kind h => by simp [continuesStatement, h]) hstop
  have hcomma : startsWith (· == .comma) after = false :=
    startsWith_eq_false_of_imp (fun kind h => by simp_all [continuesStatement]) hstop
  refine (eat_follows hshows hword).follow ?_ fun _ =>
    .bind (.of_reads (declarator_reads n)) fun _ => .bind hloop fun _ => .pure _
  intro p₁ hshows₁
  have hfirstEnds : startsWith continuesExpression (us ++ after) = false := by
    cases hmore with
    | nil => exact hexpression
    | cons head tail =>
        obtain ⟨hcomma, next⟩ := head
        simp [hcomma, continuesExpression]
  refine (declarator_follows hfirst hfirstEnds hshows₁).follow ?_ fun _ =>
    .bind hloop fun _ => .pure _
  intro p₂ hshows₂
  refine (collectWhile_follows (fun _ after => startsWith continuesExpression after = false)
    ?_ (.of_reads (nextDeclarator_reads n)) ?_ ?_ ?_ hmore hcomma (fun _ => hexpression)
    hshows₂).follow (fun _ h => leads_pure_following h) fun _ => .pure _
  · intro p d p'
    refine size_lt_of_reads (nextDeclarator_reads n p) ?_
    intro us d hafter
    obtain ⟨hcomma, next⟩ := hafter
    exact List.cons_ne_nil _ _
  · intro p us d after hafter hends hshows
    obtain ⟨hcomma, next⟩ := hafter
    refine (eat_follows hshows hcomma).follow ?_ fun _ => .of_reads (declarator_reads n)
    exact fun p' hshows' => declarator_follows next hends hshows'
  · intro us d hafter
    obtain ⟨hcomma, next⟩ := hafter
    simp [hcomma]
  · intro d us d' vs hafter
    obtain ⟨hcomma, next⟩ := hafter
    simp [hcomma, continuesExpression]

/-- **No separator is needed.**  A statement ends before any other one. -/
theorem endsBefore_of_begins (s : Stmt) (h : startsWith beginsStatement ts = true)
    (us : List Token) : s.EndsBefore (ts ++ us) := by
  cases ts with
  | nil => simp at h
  | cons t ts =>
      rw [startsWith_cons] at h
      constructor
      · cases hkind : t.kind <;>
          simp_all [beginsStatement, continuesStatement, continuesExpression]
      · intro _
        cases hkind : t.kind <;> simp_all [beginsStatement]

/-- A closing brace carries no statement on, and neither does the end of the
input. -/
theorem endsBefore_of_rightBrace (s : Stmt) {right : Token} (h : right.kind = .rightBrace)
    (us : List Token) : s.EndsBefore (right :: us) :=
  ⟨by simp [h, continuesStatement, continuesExpression], fun _ => by simp [h]⟩

theorem endsBefore_nil (s : Stmt) : s.EndsBefore [] := ⟨rfl, fun _ => rfl⟩

/-- What an `if` does after its consequent. -/
def alternative (statement : Parse Stmt) (test : Expr) (consequent : Stmt) : Parse Stmt := do
  if (← peek) == some .elseWord then
    let _ ← eat .elseWord .ifStatement
    let alternate ← statement
    return .ifThenElse test consequent alternate
  else
    return .ifThen test consequent

theorem ifStatement_eq {expression : Parse Expr} {statement : Parse Stmt} :
    ifStatement expression statement = (do
      let _ ← eat .ifWord .ifStatement
      let test ← parenthesized expression
      let consequent ← statement
      alternative statement test consequent) := rfl

section Statements

variable
  (hinner : ∀ p ts s after, Statement n ts s → s.EndsBefore after →
    p.Shows horizon (ts ++ after) → (statement n).Leads p (.following horizon s after))
include hinner

theorem statements_follow {accepts : Kind → Bool} {body : List Stmt}
    (haccepts : ∀ kind, beginsStatement kind = true → accepts kind = true)
    (h : Sequence (Statement n) ts body) (hstop : startsWith accepts after = false)
    (hlast : ∀ s : Stmt, s.EndsBefore after) (hshows : p.Shows horizon (ts ++ after)) :
    (collectWhile accepts (statement n)).Leads p (.following horizon body after) := by
  have hreads := statement_reads n
  refine collectWhile_follows Stmt.EndsBefore ?_ (.of_reads hreads) hinner ?_ ?_ h hstop hlast
    hshows
  · intro p s p'
    exact size_lt_of_reads (hreads p) fun _ _ h => ne_nil_of_startsWith h.begins
  · intro ts s hs
    have hbegins := hs.begins
    cases ts with
    | nil => simp at hbegins
    | cons t ts => exact haccepts _ hbegins
  · intro s ts s' us hs'
    exact endsBefore_of_begins s hs'.begins us

theorem block_follows {left right : Token} {body : List Stmt} (hleft : left.kind = .leftBrace)
    (hbody : Sequence (Statement n) ts body) (hright : right.kind = .rightBrace)
    (hshows : p.Shows horizon (left :: (ts ++ (right :: after)))) :
    (block (statement n)).Leads p (.following horizon (.block body) after) := by
  have hloop : Orderly (collectWhile (· != .rightBrace) (statement n)) :=
    .collectWhile (.of_reads (statement_reads n))
  refine (eat_follows hshows hleft).follow ?_ fun _ => .bind hloop fun _ =>
    .bind .eat fun _ => .pure _
  intro p₁ hshows₁
  refine (statements_follow hinner ?_ hbody ?_ (fun s => endsBefore_of_rightBrace s hright after)
    hshows₁).follow ?_ fun _ => .bind .eat fun _ => .pure _
  · intro kind
    cases kind <;> simp [beginsStatement]
  · simp [hright]
  intro p₂ hshows₂
  exact (eat_follows hshows₂ hright).follow (fun _ h => leads_pure_following h) fun _ => .pure _

/-- An `if` follows its derivation up to the end of its consequent. -/
theorem ifStatement_reaches {word : Token} {us rest : List Token} {test : Expr}
    {consequent s : Stmt} (hword : word.kind = .ifWord)
    (htest : Parenthesized (Assignment n) ts test) (hconsequent : Statement n us consequent)
    (hends : consequent.EndsBefore rest)
    (hshows : p.Shows horizon (word :: (ts ++ (us ++ rest))))
    (hrest : ∀ p', p'.Shows horizon rest →
      (alternative (statement n) test consequent).Leads p' (.following horizon s after)) :
    (ifStatement (assignment n) (statement n)).Leads p (.following horizon s after) := by
  have htests : Orderly (parenthesized (assignment n)) :=
    .of_reads fun _ => parenthesized_reads (assignment_reads n)
  have hstatements := Orderly.of_reads (statement_reads n)
  have halternatives : ∀ test consequent,
      Orderly (alternative (statement n) test consequent) := fun _ _ =>
    .peek_bind fun _ => .ite (.bind .eat fun _ => .bind hstatements fun _ => .pure _) (.pure _)
  rw [ifStatement_eq]
  refine (eat_follows hshows hword).follow ?_ fun _ => .bind htests fun _ =>
    .bind hstatements fun _ => halternatives _ _
  intro p₁ hshows₁
  refine (parenthesized_follows (assignment_follows n) htest hshows₁).follow ?_ fun _ =>
    .bind hstatements fun _ => halternatives _ _
  intro p₂ hshows₂
  exact (hinner p₂ us consequent rest hconsequent hends hshows₂).follow hrest fun _ =>
    halternatives _ _

theorem ifThen_follows {word : Token} {us : List Token} {test : Expr} {consequent : Stmt}
    (hword : word.kind = .ifWord) (htest : Parenthesized (Assignment n) ts test)
    (hconsequent : Statement n us consequent)
    (hends : (Stmt.ifThen test consequent).EndsBefore after)
    (hshows : p.Shows horizon (word :: (ts ++ (us ++ after)))) :
    (ifStatement (assignment n) (statement n)).Leads p
      (.following horizon (.ifThen test consequent) after) := by
  have hnoElse : startsWith (· == .elseWord) after = false := hends.noElse rfl
  refine ifStatement_reaches hinner hword htest hconsequent ⟨hends.continues, fun _ => hnoElse⟩
    hshows ?_
  intro p' hshows'
  have hno : ¬(p'.kind? == some .elseWord) = true := by
    simpa using hshows'.kind?_ne hnoElse rfl
  rw [alternative, leads_peek_bind, if_neg hno]
  exact leads_pure_following hshows'

theorem ifThenElse_follows {word other : Token} {us vs : List Token} {test : Expr}
    {consequent alternate : Stmt} (hword : word.kind = .ifWord)
    (htest : Parenthesized (Assignment n) ts test) (hconsequent : Statement n us consequent)
    (hclosed : consequent.isOpen = false) (hother : other.kind = .elseWord)
    (halternate : Statement n vs alternate)
    (hends : (Stmt.ifThenElse test consequent alternate).EndsBefore after)
    (hshows : p.Shows horizon (word :: (ts ++ (us ++ (other :: (vs ++ after)))))) :
    (ifStatement (assignment n) (statement n)).Leads p
      (.following horizon (.ifThenElse test consequent alternate) after) := by
  have hconsequentEnds : consequent.EndsBefore (other :: (vs ++ after)) :=
    ⟨by simp [hother, continuesStatement, continuesExpression], by simp [hclosed]⟩
  refine ifStatement_reaches hinner hword htest hconsequent hconsequentEnds hshows ?_
  intro p' hshows'
  have hyes : p'.kind? = some .elseWord := by
    rw [hshows'.kind?]
    simp [hother]
  rw [alternative, leads_peek_bind, hyes]
  refine (eat_follows hshows' hother).follow ?_ fun _ =>
    .bind (.of_reads (statement_reads n)) fun _ => .pure _
  intro q hq
  exact (hinner q vs alternate after halternate ⟨hends.continues, hends.noElse⟩ hq).follow
    (fun _ h => leads_pure_following h) fun _ => .pure _

end Statements

/-- **Statements.**  The rule for statements follows the statements that have
at most as many levels as it may open. -/
theorem statement_follows (n : Nat) (p : Parser) (ts : List Token) (s : Stmt)
    (after : List Token) (h : Statement n ts s) (hends : s.EndsBefore after)
    (hshows : p.Shows horizon (ts ++ after)) :
    (statement n).Leads p (.following horizon s after) := by
  induction n generalizing p ts s after with
  | zero => exact h.elim
  | succ n ih =>
      refine leads_note_bind.mpr (leads_within_following (leads_peek_bind.mpr ?_))
      have hshows : ((p.record [.statement p.position]).entering .statement).Shows horizon
        (ts ++ after) := hshows
      generalize (p.record _).entering .statement = p at hshows ⊢
      rw [hshows.kind?]
      cases h with
      | @ifThen word ts us test consequent hword htest hconsequent =>
          simp only [List.cons_append, List.append_assoc] at hshows
          simp only [List.cons_append, List.head?_cons, Option.map_some, hword]
          exact ifThen_follows ih hword htest hconsequent hends hshows
      | ifThenElse hword htest hconsequent hclosed hother halternate =>
          simp only [List.cons_append, List.append_assoc] at hshows
          simp only [List.cons_append, List.head?_cons, Option.map_some, hword]
          exact ifThenElse_follows ih hword htest hconsequent hclosed hother halternate hends
            hshows
      | block hleft hbody hright =>
          simp only [List.cons_append, List.append_assoc] at hshows
          simp only [List.cons_append, List.head?_cons, Option.map_some, hleft]
          exact block_follows ih hleft hbody hright hshows
      | @declare word ts us binding first more hword hfirst hmore =>
          simp only [List.cons_append, List.append_assoc] at hshows
          simp only [List.cons_append, List.head?_cons, Option.map_some, hword]
          have hread := declaration_follows hword hfirst hmore hends.continues hshows
          cases binding with
          | letBinding => exact hread
          | constBinding => exact hread
      | @expression name ts e hname he =>
          have hstop : startsWith continuesExpression after = false :=
            startsWith_eq_false_of_imp (fun kind h => by simp [continuesStatement, h])
              hends.continues
          simp only [List.cons_append, List.head?_cons, Option.map_some, hname]
          exact (assignment_follows n p (name :: ts) e after he hstop hshows).follow
            (fun _ h => leads_pure_following h) fun _ => .pure _

/-- **Programs.** -/
theorem program_follows (n : Nat) (p : Parser) (ts : List Token) (program : Program)
    (h : Grammar.Program n ts program) (hshows : p.Shows horizon ts) :
    (Parse.program n).Leads p (.following horizon program []) := by
  have hshows : p.Shows horizon (ts ++ []) := by simpa using hshows
  refine (statements_follow (statement_follows n) (fun _ _ => rfl) h rfl endsBefore_nil
    hshows).follow (fun _ h => leads_pure_following h) fun _ => .pure _

/-- A single expression is followed up to the end of the input. -/
theorem soleExpression_follows (n : Nat) (p : Parser) (ts : List Token) (e : Expr)
    (h : Assignment n ts e) (hshows : p.Shows horizon ts) :
    (soleExpression n).Leads p (.following horizon e []) := by
  have hshows : p.Shows horizon (ts ++ []) := by simpa using hshows
  refine (assignment_follows n p ts e [] h rfl hshows).follow ?_ ?_
  · intro p' hshows'
    rw [leads_peek_bind, hshows'.kind?]
    exact leads_pure_following hshows'
  · refine fun _ => .peek_bind fun kind => ?_
    cases kind with
    | none => exact .pure _
    | some kind => exact .fail

end Parse

end TildeLang
