import TildeLang.Proofs.Reading

/-!
# The rules read the grammar

Every rule of the parser reads the phrases of its production.  The proofs
follow the text of the rules; the two rules that tie the knot, `assignment`
and `statement`, are by induction on the number of levels that may still be
opened.

* `assignment_reads`, `statement_reads`, `program_reads` — the rules read
  expressions, statements and programs;
* `statement_closed` — a statement that is open to an `else` is left only
  where no `else` follows.
-/

namespace TildeLang.Parse

open Grammar

variable {p : Parser} {n : Nat}

/-! ### Expressions -/

/-- With a level to spare there is an expression. -/
theorem assignment_specimen (m : Nat) :
    Assignment (m + 1) [specimen .identifier] (.identifier "") :=
  .sum (.single (.single (.identifier rfl)))

/-- One identifier, which stands for its text. -/
def Name : Phrases String := fun ts name => ∃ t, ts = [t] ∧ t.kind = .identifier ∧ t.raw = name

theorem identifier_reads : identifier.Leads p (.reading p n fun _ => Name) := by
  refine eat_seq ?_ ?_
  · intro t hkind
    exact .of_phrase (Nat.le_refl n) ⟨t, rfl, hkind, rfl⟩
  · intro t p' _ hkind
    exact leads_pure_reading ⟨t, rfl, hkind, rfl⟩

/-- One token whose kind and value are those of a literal. -/
def Written : Phrases Literal := fun ts l =>
  ∃ t, ts = [t] ∧ l.kind.token = t.kind ∧ l.value = t.value

theorem literal_reads : literal.Leads p (.reading p n fun _ => Written) := by
  have hviable : Viable (fun _ => Written) n [] :=
    ⟨n, [specimen .number], ⟨.number, .text ""⟩, Nat.le_refl n, _, rfl, rfl, rfl⟩
  unfold literal
  rw [leads_peek_bind]
  split
  · rename_i k _
    have hwritten : ∀ t : Token, t.kind = k.token → Written [t] ⟨k, t.value⟩ :=
      fun t hkind => ⟨t, rfl, hkind.symm, rfl⟩
    refine eat_seq ?_ ?_
    · intro t hkind
      exact .of_phrase (Nat.le_refl n) (hwritten t hkind)
    · intro t p' _ hkind
      exact leads_pure_reading (hwritten t hkind)
  · exact leads_fail_reading rfl hviable

theorem multiplicativeOp?_eq_some_iff (kind : Kind) (op : BinaryOp) :
    multiplicativeOp? kind = some op ↔ op ∈ productOps ∧ kind = op.kind := by
  constructor
  · intro h
    unfold multiplicativeOp? at h
    split at h <;> simp_all [productOps, BinaryOp.kind] <;> subst h <;> rfl
  · intro hboth
    obtain ⟨hop, rfl⟩ := hboth
    cases op <;> simp_all [productOps, multiplicativeOp?, BinaryOp.kind]

theorem additiveOp?_eq_some_iff (kind : Kind) (op : BinaryOp) :
    additiveOp? kind = some op ↔ op ∈ sumOps ∧ kind = op.kind := by
  constructor
  · intro h
    unfold additiveOp? at h
    split at h <;> simp_all [sumOps, BinaryOp.kind] <;> subst h <;> rfl
  · intro hboth
    obtain ⟨hop, rfl⟩ := hboth
    cases op <;> simp_all [sumOps, additiveOp?, BinaryOp.kind]

section Expressions

variable (hinner : ∀ p, (assignment n).Leads p (.reading p n Assignment))
include hinner

theorem parenthesized_reads :
    (parenthesized (assignment n)).Leads p
      (.reading p n fun m => Parenthesized (Assignment m)) := by
  refine eat_seq ?_ ?_
  · intro left hleft
    exact ⟨n + 1, [specimen .identifier, specimen .rightParen], _, Nat.le_succ n,
      .mk hleft (assignment_specimen n) rfl⟩
  intro left p' _ hleft
  refine (hinner p').seq ?_ ?_
  · intro m ts e hm he
    exact ⟨m, [specimen .rightParen], e, hm, .mk hleft he rfl⟩
  intro ts e q _ _ he
  refine eat_seq ?_ ?_
  · intro right hright
    exact .of_phrase (Nat.le_refl n) (.mk hleft he hright)
  intro right q' _ hright
  exact leads_pure_reading (.mk hleft he hright)

theorem primary_reads :
    (primary (assignment n)).Leads p (.reading p n fun m => Primary (Assignment m)) := by
  have hviable : Viable (fun m => Primary (Assignment m)) n [] :=
    ⟨n, [specimen .identifier], _, Nat.le_refl n, .identifier rfl⟩
  unfold primary
  rw [leads_peek_bind]
  split
  · exact (parenthesized_reads hinner).widen fun m ts e _ h => .parenthesized h
  · refine identifier_reads.seq ?_ ?_
    · intro m ts name hm htoken
      obtain ⟨t, rfl, hkind, rfl⟩ := htoken
      exact .of_phrase hm (.identifier hkind)
    · intro ts name p' _ _ htoken
      obtain ⟨t, rfl, hkind, rfl⟩ := htoken
      exact leads_pure_reading (.identifier hkind)
  · split
    · refine literal_reads.seq ?_ ?_
      · intro m ts l hm htoken
        obtain ⟨t, rfl, hkind, hvalue⟩ := htoken
        exact .of_phrase hm (.literal hkind hvalue)
      · intro ts l p' _ _ htoken
        obtain ⟨t, rfl, hkind, hvalue⟩ := htoken
        exact leads_pure_reading (.literal hkind hvalue)
    · exact leads_fail_reading rfl hviable
  · exact leads_fail_reading rfl hviable

theorem multiplicative_reads (p : Parser) :
    (multiplicative (assignment n)).Leads p
      (.reading p n fun m => Product (Assignment m)) := by
  refine leftGrouped_reads multiplicativeOp?_eq_some_iff (fun p => primary_reads hinner) ?_ ?_ p
  · intro m
    exact ⟨m, [specimen .identifier], _, Nat.le_refl m, .identifier rfl⟩
  · intro m k ts e hle h
    exact h.mono fun _ _ => Assignment.mono hle

theorem additive_reads (p : Parser) :
    (additive (assignment n)).Leads p (.reading p n fun m => Sum (Assignment m)) := by
  refine leftGrouped_reads additiveOp?_eq_some_iff (multiplicative_reads hinner) ?_ ?_ p
  · intro m
    exact ⟨m, [specimen .identifier], _, Nat.le_refl m, .single (.identifier rfl)⟩
  · intro m k ts e hle h
    exact h.mono fun _ _ => Assignment.mono hle

end Expressions

/-- **A bare identifier is one token.**  A sum that stands for an identifier
and begins with an identifier token has no other tokens: parentheses would
come first. -/
theorem sum_eq_singleton {group : Phrases Expr} {ts : List Token} {name : String}
    (h : Sum group ts (.identifier name))
    (hbare : startsWith (· == .identifier) ts = true) :
    ∃ t, ts = [t] ∧ t.kind = .identifier ∧ t.raw = name := by
  cases h with
  | single h =>
      cases h with
      | single h =>
          cases h with
          | identifier hkind => exact ⟨_, rfl, hkind, rfl⟩
          | parenthesized h =>
              obtain ⟨hleft, inner, hright⟩ := h
              simp [hleft] at hbare

/-- Only a bare identifier is a target; before an equals sign, the error says
so. -/
theorem target_leads {bare : Bool} {left : Expr} (hequals : p.kind? = some .assign) :
    (target bare left).Leads p
      ⟨fun name p' => p' = p ∧ bare = true ∧ left = .identifier name,
        fun e p' => Reads p [] p' ∧ e.Reports p'.toCursor, fun _ _ => False⟩ := by
  have hfail : ∀ found, (fail .assignmentExpression fun _ => .invalidAssignmentTarget found :
      Parse String).Leads p
        ⟨fun name p' => p' = p ∧ bare = true ∧ left = .identifier name,
          fun e p' => Reads p [] p' ∧ e.Reports p'.toCursor, fun _ _ => False⟩ :=
    fun _ => ⟨.note p _, rfl, hequals⟩
  cases left with
  | identifier name =>
      cases bare with
      | true => exact ⟨rfl, rfl, rfl⟩
      | false => exact hfail _
  | literal l => exact hfail _
  | binary op left right => exact hfail _
  | assign name value => exact hfail _

/-- **Expressions.**  The rule for assignments reads the expressions that have
at most as many levels as it may open. -/
theorem assignment_reads (n : Nat) (p : Parser) :
    (assignment n).Leads p (.reading p n Assignment) := by
  induction n generalizing p with
  | zero => exact leads_tooDeep
  | succ n ih =>
      refine leads_within_reading (leads_peek_bind.mpr ?_)
      generalize p.entering .assignmentExpression = p
      refine (additive_reads ih p).seq ?_ ?_
      · intro m ts e hm h
        exact .of_phrase hm (.sum h)
      intro ts left p' _ hreads hsum
      have hcomplete : AssignmentOver (Assignment n) (ts ++ []) left := by
        simpa using .sum hsum
      rw [leads_peek_bind]
      split
      · rename_i hequals
        have hequals : p'.kind? = some .assign := by simpa using hequals
        rw [leads_bind]
        refine (target_leads hequals).imp ?_ ?_ (fun _ _ h => h.elim)
        · intro name q hanswer
          obtain ⟨rfl, hbare, rfl⟩ := hanswer
          have hne := ne_nil_of_startsWith hsum.begins
          have hstart : startsWith (· == .identifier) ts = true := by
            rw [startsWith, ← hreads.kind? hne, eq_of_beq hbare]
            rfl
          obtain ⟨t, rfl, hkind, rfl⟩ := sum_eq_singleton hsum hstart
          refine eat_seq ?_ ?_
          · intro equals hequals
            exact ⟨n + 1, [specimen .identifier], _, Nat.le_succ n,
              .assign hkind hequals (assignment_specimen n)⟩
          intro equals q' _ hequals
          refine (ih q').seq ?_ ?_
          · intro m us e hm he
            exact .of_phrase hm (.assign hkind hequals he)
          intro us e q'' _ _ he
          exact leads_pure_reading (by simpa using .assign hkind hequals he)
        · intro e q hfailure
          obtain ⟨hstay, hreports⟩ := hfailure
          -- The sum is a phrase by itself, so the error is at the token after
          -- the beginning of a phrase.
          exact ⟨[], hstay, Or.inr ⟨hreports, n, [], left, Nat.le_refl n, hcomplete⟩⟩
      · exact leads_pure_reading hcomplete

/-! ### Statements -/

/-- With two levels to spare there is a statement. -/
theorem statement_specimen (m : Nat) :
    Statement (m + 2) [specimen .identifier] (.expression (.identifier "")) :=
  .expression rfl (assignment_specimen m)

/-- A conditional that is open to an `else` is left only where none follows,
if that holds of its parts. -/
theorem ifStatement_closed {expression : Parse Expr} {statement : Parse Stmt}
    (hstatement : ∀ p, statement.Leads p
      (.answering fun s p' => s.isOpen = true → p'.kind? ≠ some .elseWord)) (p : Parser) :
    (ifStatement expression statement).Leads p
      (.answering fun s p' => s.isOpen = true → p'.kind? ≠ some .elseWord) := by
  refine answering_bind fun _ p₁ _ => answering_bind fun test p₂ _ =>
    answering_bind fun consequent p₃ _ => leads_peek_bind.mpr ?_
  split
  · refine answering_bind fun _ p₄ _ => leads_bind.mpr ?_
    exact hstatement p₄
  · rename_i hno
    intro _ helse
    exact hno (by simp [helse])

theorem declaration_closed {expression : Parse Expr} {binding : Binding} (p : Parser) :
    (declaration expression binding).Leads p
      (.answering fun s p' => s.isOpen = true → p'.kind? ≠ some .elseWord) := by
  refine answering_bind fun _ p₁ _ => answering_bind fun first p₂ _ =>
    answering_bind fun more p₃ _ => ?_
  exact fun hopen => absurd hopen Bool.false_ne_true

/-- **The nearest `if`.**  A statement that is open to an `else` is left only
where none follows. -/
theorem statement_closed (n : Nat) (p : Parser) :
    (statement n).Leads p
      (.answering fun s p' => s.isOpen = true → p'.kind? ≠ some .elseWord) := by
  induction n generalizing p with
  | zero => exact leads_note_bind.mpr trivial
  | succ n ih =>
      refine leads_note_bind.mpr (leads_within.mpr (leads_peek_bind.mpr ?_))
      generalize (p.record _).entering .statement = p
      split
      · exact ifStatement_closed ih p
      · refine answering_bind fun _ p₁ _ => answering_bind fun body p₂ _ =>
          answering_bind fun _ p₃ _ => ?_
        exact fun hopen => absurd hopen Bool.false_ne_true
      · exact declaration_closed p
      · exact declaration_closed p
      · refine answering_bind fun e p₁ _ => ?_
        exact fun hopen => absurd hopen Bool.false_ne_true
      · exact trivial

theorem declarator_reads (n : Nat) (p : Parser) :
    (declarator (assignment n)).Leads p (.reading p n fun m => Declared (Assignment m)) := by
  refine identifier_reads.seq ?_ ?_
  · intro m ts name hm htoken
    obtain ⟨t, rfl, hkind, rfl⟩ := htoken
    exact .of_phrase hm (.bare hkind)
  intro ts name p' _ _ htoken
  obtain ⟨t, rfl, hkind, rfl⟩ := htoken
  rw [leads_peek_bind]
  split
  · refine eat_seq ?_ ?_
    · intro equals hequals
      exact ⟨n + 1, [specimen .identifier], _, Nat.le_succ n,
        .initialized hkind hequals (assignment_specimen n)⟩
    intro equals q _ hequals
    refine (assignment_reads n q).seq ?_ ?_
    · intro m us e hm he
      exact .of_phrase hm (.initialized hkind hequals he)
    intro us e q' _ _ he
    exact leads_pure_reading (by simpa using .initialized hkind hequals he)
  · exact leads_pure_reading (.bare hkind)

/-- The round of the loop that reads the declarators after the first. -/
theorem nextDeclarator_reads (n : Nat) (p : Parser) :
    (do
      let _ ← eat .comma .variableDeclarationList
      declarator (assignment n) : Parse Declarator).Leads p
      (.reading p n fun m => AfterComma (Declared (Assignment m))) := by
  refine eat_seq ?_ ?_
  · intro comma hcomma
    exact ⟨n, [specimen .identifier], _, Nat.le_refl n, .mk hcomma (.bare rfl)⟩
  intro comma p' _ hcomma
  exact (declarator_reads n p').widen fun m ts d _ h => .mk hcomma h

theorem declared_mono {m k : Nat} (hle : m ≤ k) {ts : List Token} {d : Declarator}
    (h : Declared (Assignment m) ts d) : Declared (Assignment k) ts d :=
  h.mono fun _ _ => Assignment.mono hle

theorem declaration_reads (n : Nat) (binding : Binding) (p : Parser) :
    (declaration (assignment n) binding).Leads p
      (.reading p n fun m => StatementOver (Assignment m) (Statement m)) := by
  refine eat_seq ?_ ?_
  · intro word hword
    have hfirst : Declared (Assignment n) [specimen .identifier] ⟨"", none⟩ := .bare rfl
    have hdeclare : StatementOver (Assignment n) (Statement n) _ _ :=
      .declare hword hfirst .nil
    exact ⟨n, _, _, Nat.le_refl n, hdeclare⟩
  intro word p' _ hword
  refine (declarator_reads n p').seq ?_ ?_
  · intro m ts first hm hfirst
    exact ⟨m, [], _, hm, .declare hword hfirst .nil⟩
  intro ts first q _ _ hfirst
  refine (collectWhile_reads (nextDeclarator_reads n) ?_ ?_ q).seq ?_ ?_
  · intro us d hafter
    obtain ⟨hcomma, hnext⟩ := hafter
    exact List.cons_ne_nil _ _
  · intro m us d hm h
    exact h.mono fun _ _ => declared_mono hm
  · intro m us more hm hmore
    exact .of_phrase hm (.declare hword (declared_mono hm hfirst) hmore)
  intro us more q' _ _ hmore
  exact leads_pure_reading (by simpa using .declare hword hfirst hmore)

/-- An expression is a statement where it begins with an identifier. -/
theorem expression_reads (hahead : p.kind? = some .identifier) :
    (do return .expression (← assignment n) : Parse Stmt).Leads p
      (.reading p n fun m => StatementOver (Assignment m) (Statement m)) := by
  have hname : ∀ {t us q}, Reads p (t :: us) q → t.kind = .identifier := by
    intro t us q hreads
    have := hreads.kind? (List.cons_ne_nil t us)
    simpa [hahead, eq_comm] using this
  rw [leads_bind]
  refine (assignment_reads n p).imp ?_ ?_ (fun _ _ h => h)
  · intro e p' hanswer
    obtain ⟨ts, hreads, he⟩ := hanswer
    cases ts with
    | nil => exact absurd rfl (ne_nil_of_startsWith he.begins)
    | cons t us => exact ⟨t :: us, hreads, .expression (hname hreads) he⟩
  · intro e p' hfailure
    obtain ⟨ts, hreads, hnesting | ⟨hreports, m, more, a, hm, he⟩⟩ := hfailure
    · exact ⟨ts, hreads, Or.inl hnesting⟩
    · refine ⟨ts, hreads, Or.inr ⟨hreports, ?_⟩⟩
      cases ts with
      | nil => exact ⟨n + 1, _, _, Nat.le_succ n, statement_specimen n⟩
      | cons t us => exact ⟨m, more, _, hm, .expression (hname hreads) he⟩

section Statements

variable (hinner : ∀ p, (statement n).Leads p (.reading p n Statement))
include hinner

theorem statements_read {accepts : Kind → Bool} (p : Parser) :
    (collectWhile accepts (statement n)).Leads p
      (.reading p n fun m => Sequence (Statement m)) :=
  collectWhile_reads hinner (fun _ _ h => ne_nil_of_startsWith h.begins)
    (fun _ _ _ hm h => h.mono hm) p

theorem block_reads (p : Parser) :
    (block (statement n)).Leads p
      (.reading p n fun m => StatementOver (Assignment m) (Statement m)) := by
  refine eat_seq ?_ ?_
  · intro left hleft
    have hbody : Sequence (Statement n) [] [] := .nil
    exact ⟨n, [specimen .rightBrace], _, Nat.le_refl n, .block hleft hbody rfl⟩
  intro left p' _ hleft
  refine (statements_read hinner p').seq ?_ ?_
  · intro m ts body hm hbody
    exact ⟨m, [specimen .rightBrace], _, hm, .block hleft hbody rfl⟩
  intro ts body q _ _ hbody
  refine eat_seq ?_ ?_
  · intro right hright
    exact .of_phrase (Nat.le_refl n) (.block hleft hbody hright)
  intro right q' _ hright
  exact leads_pure_reading (.block hleft hbody hright)

theorem ifStatement_reads (p : Parser) :
    (ifStatement (assignment n) (statement n)).Leads p
      (.reading p n fun m => StatementOver (Assignment m) (Statement m)) := by
  have hlift : ∀ {ts e}, Parenthesized (Assignment n) ts e →
      ∀ m, n ≤ m → Parenthesized (Assignment m) ts e :=
    fun h m hm => h.mono fun _ _ => Assignment.mono hm
  refine eat_seq ?_ ?_
  · intro word hword
    have htest : Parenthesized (Assignment (n + 2))
        (specimen .leftParen :: ([specimen .identifier] ++ [specimen .rightParen]))
        (.identifier "") :=
      .mk rfl (assignment_specimen (n + 1)) rfl
    have hif := StatementOver.ifThen hword htest (statement_specimen n)
    exact ⟨n + 2, _, _, by omega, hif⟩
  intro word p₁ _ hword
  refine (parenthesized_reads (assignment_reads n)).seq ?_ ?_
  · intro m ts test hm htest
    have htest : Parenthesized (Assignment (m + 2)) ts test :=
      htest.mono fun _ _ => Assignment.mono (by omega)
    exact ⟨m + 2, _, _, by omega, .ifThen hword htest (statement_specimen m)⟩
  intro ts test p₂ _ _ htest
  refine (hinner p₂).seq ?_ ?_
  · intro m us consequent hm hconsequent
    exact .of_phrase hm (.ifThen hword (hlift htest m hm) hconsequent)
  intro us consequent p₃ hrun _ hconsequent
  rw [leads_peek_bind]
  split
  · rename_i helse
    have hclosed : consequent.isOpen = false := by
      have hleft := (statement_closed n p₂).of_ok hrun
      exact Bool.eq_false_iff.mpr fun hopen => hleft hopen (by simpa using helse)
    refine eat_seq ?_ ?_
    · intro other hother
      exact ⟨n + 2, [specimen .identifier], _, by omega,
        .ifThenElse hword (hlift htest _ (by omega)) (hconsequent.mono (by omega)) hclosed
          hother (statement_specimen n)⟩
    intro other p₄ _ hother
    refine (hinner p₄).seq ?_ ?_
    · intro m vs alternate hm halternate
      exact .of_phrase hm (.ifThenElse hword (hlift htest m hm) (hconsequent.mono hm) hclosed
        hother halternate)
    intro vs alternate p₅ _ _ halternate
    refine leads_pure_reading ?_
    simpa using .ifThenElse hword htest hconsequent hclosed hother halternate
  · exact leads_pure_reading (by simpa using .ifThen hword htest hconsequent)

end Statements

/-- **Statements.**  The rule for statements reads the statements that have at
most as many levels as it may open. -/
theorem statement_reads (n : Nat) (p : Parser) :
    (statement n).Leads p (.reading p n Statement) := by
  induction n generalizing p with
  | zero => exact leads_note_reading leads_tooDeep
  | succ n ih =>
      refine leads_note_reading (leads_within_reading (leads_peek_bind.mpr ?_))
      generalize (p.record _).entering .statement = p
      split
      · exact ifStatement_reads ih p
      · exact block_reads ih p
      · exact declaration_reads n .letBinding p
      · exact declaration_reads n .constBinding p
      · rename_i hahead
        exact expression_reads hahead
      · refine leads_fail_reading rfl ⟨n + 1, _, _, Nat.le_succ n, statement_specimen n⟩

/-- **Programs.** -/
theorem program_reads (n : Nat) (p : Parser) :
    (program n).Leads p (.reading p n Grammar.Program) := by
  refine (statements_read (statement_reads n) p).seq ?_ ?_
  · intro m ts body hm hbody
    exact .of_phrase (a := ⟨body⟩) hm hbody
  · intro ts body p' _ _ hbody
    refine leads_pure_reading ?_
    rwa [List.append_nil]

/-- A program is complete only at the end of the input. -/
theorem program_exhausts (n : Nat) (p : Parser) :
    (program n).Leads p (.answering fun _ p' => p'.kind? = none) := by
  rw [program, leads_bind]
  refine (collectWhile_stops ?_ p).imp ?_ (fun _ _ _ => trivial) (fun _ _ _ => trivial)
  · intro p s p'
    exact size_lt_of_reads (statement_reads n p) fun _ _ h => ne_nil_of_startsWith h.begins
  · intro body p' hstop
    have hstop : p'.kind?.any (fun _ => true) = false := hstop
    change p'.kind? = none
    simpa using hstop

/-- **Single expressions.** -/
theorem soleExpression_reads (n : Nat) (p : Parser) :
    (soleExpression n).Leads p (.reading p n Assignment) := by
  refine (assignment_reads n p).seq ?_ ?_
  · intro m ts e hm he
    exact .of_phrase hm he
  intro ts e p' _ _ he
  have he : Assignment n (ts ++ []) e := by simpa using he
  rw [leads_peek_bind]
  cases p'.kind? with
  | none => exact leads_pure_reading he
  | some kind => exact leads_fail_reading rfl ⟨n, [], e, Nat.le_refl n, he⟩

/-- A single expression is complete only at the end of the input. -/
theorem soleExpression_exhausts (n : Nat) (p : Parser) :
    (soleExpression n).Leads p (.answering fun _ p' => p'.kind? = none) := by
  refine answering_bind fun e p' _ => leads_peek_bind.mpr ?_
  cases hkind : p'.kind? with
  | none => exact hkind
  | some kind => exact trivial

end TildeLang.Parse
