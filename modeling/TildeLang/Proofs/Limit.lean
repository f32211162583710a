import TildeLang.Proofs.Comparison

/-!
# The limit on levels

A rule that may open more levels does the same as one that may open fewer, up
to the point where the latter gives up because too many levels are open.  So
the limit changes nothing but runs that reach it.

* `Bounds` — one rule does what another does, unless it gives up;
* `assignment_bounds`, `statement_bounds`, `program_bounds`,
  `soleExpression_bounds` — fewer levels against more.
-/

namespace TildeLang.Parse

variable {α β : Type}

/-- From a parser, the rule does what another rule does, unless it gives up
because too many levels are open. -/
def BoundsAt (p : Parser) (rule rule' : Parse α) : Prop :=
  rule p = rule' p ∨ ∃ e p', rule p = (.error (.grammar e), p') ∧ e.cause.isNesting = true

/-- The rule does what another rule does from every parser, unless it gives
up. -/
def Bounds (rule rule' : Parse α) : Prop := ∀ p, BoundsAt p rule rule'

theorem BoundsAt.bind {p : Parser} {rule rule' : Parse α} {next next' : α → Parse β}
    (hrule : BoundsAt p rule rule')
    (hnext : ∀ a p', rule' p = (.ok a, p') → BoundsAt p' (next a) (next' a)) :
    BoundsAt p (rule >>= next) (rule' >>= next') := by
  rcases hrule with hsame | ⟨e, p', hrun, hnesting⟩
  · rcases hrun : rule' p with ⟨answer, q⟩
    cases answer with
    | ok a =>
        rw [BoundsAt, bind_of_ok (hsame.trans hrun), bind_of_ok hrun]
        exact hnext a q hrun
    | error e =>
        exact Or.inl (by rw [bind_of_error (hsame.trans hrun), bind_of_error hrun])
  · exact Or.inr ⟨e, p', bind_of_error hrun, hnesting⟩

theorem BoundsAt.within {p : Parser} {rule : Rule} {body body' : Parse α}
    (hbody : BoundsAt (p.entering rule) body body') :
    BoundsAt p (Parse.within rule body) (Parse.within rule body') := by
  rcases hbody with hsame | ⟨e, p', hfails, hnesting⟩
  · exact Or.inl (by rw [within_apply, within_apply, hsame])
  · exact Or.inr ⟨e, p'.leaving rule, by rw [within_apply, hfails], hnesting⟩

/-- Doing the same, unless giving up, is a comparison. -/
def bounding : Comparison where
  Holds p rule rule' := BoundsAt p rule rule'
  congr h hrule hrule' := by
    unfold BoundsAt
    rwa [hrule, hrule']
  pure _ _ := Or.inl rfl
  note _ := Or.inl rfl
  eat _ _ _ := Or.inl rfl
  fail _ _ _ _ := Or.inl rfl
  bind := BoundsAt.bind

private theorem tooDeep_bounds (p : Parser) (rule : Rule) (rule' : Parse α) :
    BoundsAt p (tooDeep rule) rule' :=
  Or.inr ⟨_, p.record _, rfl, rfl⟩

/-- **Expressions.**  More levels change only runs that reach the limit. -/
theorem assignment_bounds {n m : Nat} (hle : n ≤ m) : Bounds (assignment n) (assignment m) := by
  obtain ⟨k, rfl⟩ := Nat.exists_eq_add_of_le hle
  exact compare_assignment (fun _ => bounding) (fun _ _ _ _ _ => BoundsAt.within)
    (fun p => tooDeep_bounds p _ _) n

/-- **Statements.**  More levels change only runs that reach the limit. -/
theorem statement_bounds {n m : Nat} (hle : n ≤ m) : Bounds (statement n) (statement m) := by
  obtain ⟨k, rfl⟩ := Nat.exists_eq_add_of_le hle
  refine compare_statement (fun _ => bounding) (fun _ _ _ _ _ => BoundsAt.within)
    (fun p => tooDeep_bounds p _ _) (fun p => ?_) n
  cases k with
  | zero => exact Or.inl rfl
  | succ k => exact BoundsAt.bind (Or.inl rfl) fun _ q _ => tooDeep_bounds q _ _

theorem program_bounds {n m : Nat} (hle : n ≤ m) : Bounds (program n) (program m) :=
  fun _ => bounding.program (.limited n) fun q _ => statement_bounds hle q

theorem soleExpression_bounds {n m : Nat} (hle : n ≤ m) :
    Bounds (soleExpression n) (soleExpression m) :=
  fun p => bounding.soleExpression (.limited n) (assignment_bounds hle p)

/-- A failure that is not due to the limit does not depend on it. -/
theorem Bounds.eq_of_grammar {rule rule' : Parse α} (h : Bounds rule rule') {p p' : Parser}
    {e : ParseError} (hrun : rule p = (.error (.grammar e), p'))
    (hcause : e.cause.isNesting = false) : rule' p = (.error (.grammar e), p') := by
  rcases h p with hsame | ⟨e', q, hfails, hnesting⟩
  · rw [← hsame, hrun]
  · rw [hrun] at hfails
    cases hfails
    simp [hcause] at hnesting

end TildeLang.Parse
