import TildeLang.Proofs.Trace

/-!
# Outcomes of a rule

A rule ends in one of three ways: it answers, it fails with a grammar error,
or it breaks off at a lexical error.  An **outcome** says what is claimed of
each of the three, and `rule.Leads p outcome` says that the claim holds of the
run of `rule` from `p`.

Claims about a rule follow its text: there is one lemma for each of the steps
from which the rules are made, and one for each of the two loops.

* `leads_bind` — one rule after another;
* `leads_eat` — using a token;
* `collectWhile_eq`, `operands_eq` — the loops without their counters.
-/

namespace TildeLang

/-- What is claimed of the three ways in which a rule can end. -/
structure Outcome (α : Type) where
  answers : α → Parser → Prop
  fails : ParseError → Parser → Prop
  breaks : LexError → Parser → Prop

/-- The outcome that claims something of answers only. -/
def Outcome.answering {α : Type} (claim : α → Parser → Prop) : Outcome α where
  answers := claim
  fails _ _ := True
  breaks _ _ := True

namespace Parse

variable {α β : Type} {p : Parser}

/-- The run of a rule from a parser ends as an outcome claims. -/
def Leads (rule : Parse α) (p : Parser) (outcome : Outcome α) : Prop :=
  match rule p with
  | (.ok a, p') => outcome.answers a p'
  | (.error (.grammar e), p') => outcome.fails e p'
  | (.error (.lexical e), p') => outcome.breaks e p'

theorem Leads.of_ok {rule : Parse α} {p' : Parser} {outcome : Outcome α} {a : α}
    (h : rule.Leads p outcome) (hrun : rule p = (.ok a, p')) : outcome.answers a p' := by
  simpa [Leads, hrun] using h

theorem Leads.of_grammar {rule : Parse α} {p' : Parser} {outcome : Outcome α} {e : ParseError}
    (h : rule.Leads p outcome) (hrun : rule p = (.error (.grammar e), p')) :
    outcome.fails e p' := by
  simpa [Leads, hrun] using h

theorem Leads.of_lexical {rule : Parse α} {p' : Parser} {outcome : Outcome α} {e : LexError}
    (h : rule.Leads p outcome) (hrun : rule p = (.error (.lexical e), p')) :
    outcome.breaks e p' := by
  simpa [Leads, hrun] using h

theorem Leads.intro {rule : Parse α} {outcome : Outcome α}
    (hok : ∀ a p', rule p = (.ok a, p') → outcome.answers a p')
    (hgrammar : ∀ e p', rule p = (.error (.grammar e), p') → outcome.fails e p')
    (hlexical : ∀ e p', rule p = (.error (.lexical e), p') → outcome.breaks e p') :
    rule.Leads p outcome := by
  unfold Leads
  split
  · exact hok _ _ ‹_›
  · exact hgrammar _ _ ‹_›
  · exact hlexical _ _ ‹_›

theorem Leads.congr {rule rule' : Parse α} {outcome : Outcome α} (h : rule p = rule' p)
    (hrule : rule'.Leads p outcome) : rule.Leads p outcome := by
  unfold Leads at hrule ⊢
  rwa [h]

/-- A claim can be exchanged for a weaker one. -/
theorem Leads.imp {rule : Parse α} {strong weak : Outcome α} (h : rule.Leads p strong)
    (hanswers : ∀ a p', strong.answers a p' → weak.answers a p')
    (hfails : ∀ e p', strong.fails e p' → weak.fails e p')
    (hbreaks : ∀ e p', strong.breaks e p' → weak.breaks e p') :
    rule.Leads p weak := by
  refine .intro ?_ ?_ ?_
  · intro a p' hrun
    exact hanswers a p' (h.of_ok hrun)
  · intro e p' hrun
    exact hfails e p' (h.of_grammar hrun)
  · intro e p' hrun
    exact hbreaks e p' (h.of_lexical hrun)

/-- One rule after another: the first leads to where the second starts. -/
theorem leads_bind {rule : Parse α} {next : α → Parse β} {outcome : Outcome β} :
    (rule >>= next).Leads p outcome ↔
      rule.Leads p ⟨fun a p' => (next a).Leads p' outcome, outcome.fails, outcome.breaks⟩ := by
  change (Parse.bind rule next).Leads p outcome ↔ _
  unfold Leads Parse.bind
  rcases hrun : rule p with ⟨answer, p'⟩
  cases answer with
  | ok a => rfl
  | error e => cases e <;> rfl

/-- A claim about the answers of two rules in a row is a claim about those of
the second. -/
theorem answering_bind {rule : Parse α} {next : α → Parse β} {claim : β → Parser → Prop}
    (h : ∀ a p', rule p = (.ok a, p') → (next a).Leads p' (.answering claim)) :
    (rule >>= next).Leads p (.answering claim) :=
  leads_bind.mpr (.intro h (fun _ _ _ => trivial) (fun _ _ _ => trivial))

/-- Looking ahead changes nothing. -/
@[simp]
theorem leads_peek_bind {next : Option Kind → Parse β} {outcome : Outcome β} :
    (peek >>= next).Leads p outcome ↔ (next p.kind?).Leads p outcome := by
  rw [leads_bind]
  rfl

@[simp]
theorem leads_note_bind {event : Cursor → Event} {next : Unit → Parse β}
    {outcome : Outcome β} :
    (note event >>= next).Leads p outcome ↔
      (next ()).Leads (p.record [event p.toCursor]) outcome := by
  rw [leads_bind]
  rfl

/-- A rule that is run inside a level leads from inside the level to outside
of it. -/
theorem leads_within {rule : Rule} {body : Parse α} {outcome : Outcome α} :
    (within rule body).Leads p outcome ↔
      body.Leads (p.entering rule)
        ⟨fun a p' => outcome.answers a (p'.leaving rule),
          fun e p' => outcome.fails e (p'.leaving rule),
          fun e p' => outcome.breaks e (p'.leaving rule)⟩ := by
  have hrun : within rule body p
      = ((body (p.entering rule)).1, (body (p.entering rule)).2.leaving rule) := rfl
  unfold Leads
  rw [hrun]
  rcases body (p.entering rule) with ⟨answer, p'⟩
  cases answer with
  | ok a => rfl
  | error e => cases e <;> rfl

section Eat

variable {t : Token} {scanned : List Token} {stream : TokenStream} {kind : Kind}

/-- Using the token that is read ahead. -/
theorem eat_of_ok {next : Option Token} (hahead : p.lookahead = some t)
    (hnext : p.stream.nextToken = ⟨scanned, .ok next, stream⟩) (rule : Rule) :
    eat t.kind rule p = (.ok t,
      (p.moveTo ⟨stream, next, p.depth⟩).record (.took t :: scanned.map .scanned)) := by
  simp only [eat, hahead, ite_true, Parse.bind, fetch, hnext, Parse.pure, List.singleton_append]

/-- Using it where a lexical error comes right after it. -/
theorem eat_of_error {e : LexError} (hahead : p.lookahead = some t)
    (hnext : p.stream.nextToken = ⟨scanned, .error e, stream⟩) (rule : Rule) :
    eat t.kind rule p = (.error (.lexical e),
      (p.moveTo ⟨stream, none, p.depth⟩).record (.took t :: scanned.map .scanned)) := by
  simp only [eat, hahead, ite_true, Parse.bind, fetch, hnext, List.singleton_append]

/-- A token that is not of the expected kind stays where it is. -/
theorem eat_of_kind?_ne (hkind : p.kind? ≠ some kind) (rule : Rule) :
    eat kind rule p = fail rule (fun c => .unexpectedToken kind c.kind?) p := by
  unfold eat
  cases hahead : p.lookahead with
  | none => rfl
  | some t =>
      have hne : t.kind ≠ kind := by simpa [Cursor.kind?, hahead] using hkind
      simp [hne]

/-- Using a token reads it, or fails where it stands, or breaks off at the
lexical error right after it. -/
theorem leads_eat {expected : Kind} {rule : Rule} {outcome : Outcome Token}
    (hanswers : ∀ t p', Reads p [t] p' → t.kind = expected → outcome.answers t p')
    (hfails : p.kind? ≠ some expected → ∀ event,
      outcome.fails ⟨rule, .unexpectedToken expected p.kind?, p.position⟩ (p.record [event]))
    (hbreaks : ∀ e p', p.fault? = some e → p'.upcoming = [] → outcome.breaks e p') :
    (eat expected rule).Leads p outcome := by
  unfold Leads
  by_cases hkind : p.kind? = some expected
  · obtain ⟨t, hahead, rfl⟩ := Option.map_eq_some_iff.mp hkind
    rcases hnext : p.stream.nextToken with ⟨scanned, answer, stream⟩
    cases answer with
    | ok next =>
        rw [eat_of_ok hahead hnext]
        exact hanswers t _ (Reads.take hahead hnext) rfl
    | error e =>
        rw [eat_of_error hahead hnext]
        refine hbreaks e _ ?_ rfl
        rw [Cursor.fault?_of_lookahead hahead, TokenStream.outlook_of_error hnext]
  · rw [eat_of_kind?_ne hkind]
    exact hfails hkind _

end Eat

theorem bind_of_ok {rule : Parse α} {next : α → Parse β} {a : α} {p' : Parser}
    (h : rule p = (.ok a, p')) : (rule >>= next) p = next a p' := by
  change Parse.bind rule next p = _
  simp only [Parse.bind, h]

theorem bind_of_error {rule : Parse α} {next : α → Parse β} {e : Error} {p' : Parser}
    (h : rule p = (.error e, p')) : (rule >>= next) p = (.error e, p') := by
  change Parse.bind rule next p = _
  simp only [Parse.bind, h]

/-- What follows a rule matters only where the rule can lead. -/
theorem bind_congr {rule : Parse α} {next next' : α → Parse β}
    (h : ∀ a p', rule p = (.ok a, p') → next a p' = next' a p') :
    (rule >>= next) p = (rule >>= next') p := by
  change Parse.bind rule next p = Parse.bind rule next' p
  unfold Parse.bind
  rcases hrun : rule p with ⟨answer, p'⟩
  cases answer with
  | ok a => exact h a p' hrun
  | error e => rfl

theorem bind_congr_left {rule rule' : Parse α} {next : α → Parse β} (h : rule p = rule' p) :
    (rule >>= next) p = (rule' >>= next) p := by
  change Parse.bind rule next p = Parse.bind rule' next p
  unfold Parse.bind
  rw [h]

/-- Nothing is read ahead of a parser of size zero. -/
private theorem kind?_of_size_eq_zero {c : Cursor} (h : c.size = 0) : c.kind? = none := by
  cases hahead : c.lookahead with
  | none => simp [Cursor.kind?, hahead]
  | some t => simp [Cursor.size, hahead] at h

section Collect

variable {accepts : Kind → Bool} {rule : Parse α}

private theorem collectUpTo_succ (count : Nat) :
    collectUpTo accepts rule (count + 1) p =
      (if p.kind?.any accepts then do
          let first ← rule
          let more ← collectUpTo accepts rule count
          return first :: more
        else return [] : Parse (List α)) p := rfl

/-- Two counters that are large enough make no difference. -/
private theorem collectUpTo_eq
    (hrule : ∀ p a p', rule p = (.ok a, p') → p'.size < p.size)
    (n m : Nat) (hn : p.size ≤ n) (hm : p.size ≤ m) :
    collectUpTo accepts rule n p = collectUpTo accepts rule m p := by
  induction n generalizing m p with
  | zero =>
      have hkind := kind?_of_size_eq_zero (Nat.le_zero.mp hn)
      cases m with
      | zero => rfl
      | succ m =>
          rw [collectUpTo_succ, if_neg (by simp [hkind])]
          rfl
  | succ n ih =>
      cases m with
      | zero =>
          have hkind := kind?_of_size_eq_zero (Nat.le_zero.mp hm)
          rw [collectUpTo_succ, if_neg (by simp [hkind])]
          rfl
      | succ m =>
          rw [collectUpTo_succ, collectUpTo_succ]
          split
          · apply bind_congr
            intro a p' hrun
            have hlt := hrule p a p' hrun
            apply bind_congr_left
            exact ih m (by omega) (by omega)
          · rfl

/-- **The loop without its counter.**  A rule that uses a token every time is
run for as long as the token read ahead is accepted. -/
theorem collectWhile_eq
    (hrule : ∀ p a p', rule p = (.ok a, p') → p'.size < p.size) :
    collectWhile accepts rule p =
      (if p.kind?.any accepts then do
          let first ← rule
          let more ← collectWhile accepts rule
          return first :: more
        else return [] : Parse (List α)) p := by
  have hgrow : collectWhile accepts rule p = collectUpTo accepts rule (p.size + 1) p :=
    collectUpTo_eq hrule _ _ (Nat.le_refl _) (Nat.le_succ _)
  rw [hgrow, collectUpTo_succ]
  split
  · apply bind_congr
    intro a p' hrun
    have hlt := hrule p a p' hrun
    apply bind_congr_left
    exact collectUpTo_eq hrule _ _ (by omega) (Nat.le_refl _)
  · rfl

end Collect

section Operands

variable {rule : Rule} {op? : Kind → Option BinaryOp} {operand : Parse Expr}

/-- Adds operands to the right of an expression for as long as one of the
operators is read ahead. -/
def operands (rule : Rule) (op? : Kind → Option BinaryOp) (operand : Parse Expr)
    (left : Expr) : Parse Expr := fun p =>
  operandsUpTo rule op? operand p.size left p

theorem leftGrouped_eq :
    leftGrouped rule op? operand = operand >>= operands rule op? operand := rfl

private theorem operandsUpTo_succ (count : Nat) (left : Expr) :
    operandsUpTo rule op? operand (count + 1) left p =
      (match p.kind?.bind op? with
        | some op => do
            let _ ← eat op.kind rule
            let right ← operand
            operandsUpTo rule op? operand count (.binary op left right)
        | none => return left : Parse Expr) p := rfl

private theorem operandsUpTo_eq
    (hoperand : ∀ p a p', operand p = (.ok a, p') → p'.size ≤ p.size)
    (n m : Nat) (left : Expr) (hn : p.size ≤ n) (hm : p.size ≤ m) :
    operandsUpTo rule op? operand n left p = operandsUpTo rule op? operand m left p := by
  induction n generalizing m left p with
  | zero =>
      have hkind := kind?_of_size_eq_zero (Nat.le_zero.mp hn)
      cases m with
      | zero => rfl
      | succ m =>
          rw [operandsUpTo_succ, hkind]
          rfl
  | succ n ih =>
      cases m with
      | zero =>
          have hkind := kind?_of_size_eq_zero (Nat.le_zero.mp hm)
          rw [operandsUpTo_succ, hkind]
          rfl
      | succ m =>
          rw [operandsUpTo_succ, operandsUpTo_succ]
          cases p.kind?.bind op? with
          | none => rfl
          | some op =>
              apply bind_congr
              intro t p' heat
              have hlt := size_eat_lt heat
              apply bind_congr
              intro right p'' hright
              have hle := hoperand p' right p'' hright
              exact ih m _ (by omega) (by omega)

/-- **The other loop without its counter.**  Operands are added for as long as
one of the operators is read ahead. -/
theorem operands_eq
    (hoperand : ∀ p a p', operand p = (.ok a, p') → p'.size ≤ p.size) (left : Expr) :
    operands rule op? operand left p =
      (match p.kind?.bind op? with
        | some op => do
            let _ ← eat op.kind rule
            let right ← operand
            operands rule op? operand (.binary op left right)
        | none => return left : Parse Expr) p := by
  have hgrow : operands rule op? operand left p
      = operandsUpTo rule op? operand (p.size + 1) left p :=
    operandsUpTo_eq hoperand _ _ left (Nat.le_refl _) (Nat.le_succ _)
  rw [hgrow, operandsUpTo_succ]
  cases p.kind?.bind op? with
  | none => rfl
  | some op =>
      apply bind_congr
      intro t p' heat
      have hlt := size_eat_lt heat
      apply bind_congr
      intro right p'' hright
      have hle := hoperand p' right p'' hright
      exact operandsUpTo_eq hoperand _ _ _ (by omega) (Nat.le_refl _)

end Operands

end Parse

end TildeLang
