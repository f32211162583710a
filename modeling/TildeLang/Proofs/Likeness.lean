import TildeLang.Proofs.Comparison
import TildeLang.Proofs.Printing

/-!
# Runs that differ only in layout

Two parsers are **alike** when they have the same words to come.  The texts in
which these words stand, and so the places of the tokens and all trivia between
them, may differ.

A rule that is run from two parsers that are alike takes the same branches, so
it ends alike: with one answer, or with two errors that have the same rule and
cause.  The rules look at a token only through its kind, its value and its text;
the loops count rounds by what is left to read, which differs, but they never
run out of rounds.

* `EndAlike.bind`, `EndAlike.eat_bind` — two runs, step by step;
* `Blind` — a rule that does not see the layout, with one lemma for each of the
  steps from which the rules are made and one for each of the two loops;
* `assignment_blind`, `statement_blind`, `program_blind`, `soleExpression_blind` —
  the rules of the grammar.
-/

namespace TildeLang

namespace Parser

/-- The parsers have the same words to come, with no lexical error after them,
and as many levels open. -/
structure Alike (p q : Parser) : Prop where
  words : p.upcoming.map Token.spelling = q.upcoming.map Token.spelling
  faultless : p.fault? = none
  faultless' : q.fault? = none
  depth : p.depth = q.depth

namespace Alike

variable {p q : Parser}

theorem lookahead (h : p.Alike q) :
    p.lookahead.map Token.spelling = q.lookahead.map Token.spelling := by
  rw [← Cursor.head?_upcoming, ← Cursor.head?_upcoming, ← List.head?_map, ← List.head?_map,
    h.words]

theorem kind? (h : p.Alike q) : p.kind? = q.kind? := by
  have hkinds := congrArg (Option.map Spelling.kind) h.lookahead
  rw [Option.map_map, Option.map_map] at hkinds
  exact hkinds

/-- Where one parser has read a token ahead, the other has read one with the same
spelling. -/
theorem exists_lookahead (h : p.Alike q) {t : Token} (ht : p.lookahead = some t) :
    ∃ u, q.lookahead = some u ∧ t.spelling = u.spelling := by
  have hahead := h.lookahead
  rw [ht, Option.map_some] at hahead
  obtain ⟨u, hu, hsame⟩ := Option.map_eq_some_iff.mp hahead.symm
  exact ⟨u, hu, hsame.symm⟩

theorem record (h : p.Alike q) (events events' : List Event) :
    (p.record events).Alike (q.record events') :=
  ⟨h.words, h.faultless, h.faultless', h.depth⟩

theorem entering (h : p.Alike q) (rule : Rule) : (p.entering rule).Alike (q.entering rule) :=
  ⟨h.words, h.faultless, h.faultless', congrArg (· + 1) h.depth⟩

theorem leaving (h : p.Alike q) (rule : Rule) : (p.leaving rule).Alike (q.leaving rule) :=
  ⟨h.words, h.faultless, h.faultless', congrArg (· - 1) h.depth⟩

/-- Parsers that are alike stay so when each takes its token. -/
theorem step (h : p.Alike q) {p' q' : Parser} {t u : Token} (hp : Reads p [t] p')
    (hq : Reads q [u] q') (hdepth : p'.depth = p.depth) (hdepth' : q'.depth = q.depth) :
    p'.Alike q' := by
  have hwords := h.words
  rw [hp.upcoming, hq.upcoming, List.map_append, List.map_append] at hwords
  have hlater := (List.append_inj hwords rfl).2
  exact ⟨hlater, hp.fault?.trans h.faultless, hq.fault?.trans h.faultless',
    hdepth.trans (h.depth.trans hdepth'.symm)⟩

end Alike

end Parser

namespace Parse

variable {α β : Type}

/-- Two runs end alike: with the same answer, or with errors of the same rule and
cause, and in each case with parsers that are alike. -/
inductive EndAlike : Except Error α × Parser → Except Error α × Parser → Prop
  | answered {p q : Parser} (a : α) (h : p.Alike q) : EndAlike (.ok a, p) (.ok a, q)
  | failed {p q : Parser} {e e' : ParseError} (hrule : e.rule = e'.rule)
      (hcause : e.cause = e'.cause) (h : p.Alike q) :
      EndAlike (.error (.grammar e), p) (.error (.grammar e'), q)

namespace EndAlike

variable {p q : Parser}

/-- One rule after another. -/
theorem bind {rule rule' : Parse α} {next next' : α → Parse β} (h : EndAlike (rule p) (rule' q))
    (hnext : ∀ a p' q', rule p = (.ok a, p') → p'.Alike q' → EndAlike (next a p') (next' a q')) :
    EndAlike ((rule >>= next) p) ((rule' >>= next') q) := by
  rcases hrun : rule p with ⟨answer, p'⟩
  rcases hrun' : rule' q with ⟨answer', q'⟩
  rw [hrun, hrun'] at h
  cases h with
  | answered a halike =>
      rw [bind_of_ok hrun, bind_of_ok hrun']
      exact hnext a p' q' hrun halike
  | failed hrule hcause halike =>
      rw [bind_of_error hrun, bind_of_error hrun']
      exact .failed hrule hcause halike

/-- Giving up for the same cause. -/
theorem fail (h : p.Alike q) (rule : Rule) {cause cause' : Cursor → ParseCause}
    (hcause : cause p.toCursor = cause' q.toCursor) :
    EndAlike (Parse.fail (α := α) rule cause p) (Parse.fail rule cause' q) :=
  .failed rfl hcause (h.record _ _)

end EndAlike

/-- Using a token that is read ahead, where no lexical error comes. -/
theorem eat_of_lookahead {p : Parser} {t : Token} (hahead : p.lookahead = some t)
    (hfault : p.fault? = none) {kind : Kind} (hkind : t.kind = kind) (rule : Rule) :
    ∃ p', eat kind rule p = (.ok t, p') ∧ Reads p [t] p' ∧ p'.depth = p.depth := by
  rw [Cursor.fault?_of_lookahead hahead] at hfault
  rcases hnext : p.stream.nextToken with ⟨scanned, answer, stream⟩
  cases answer with
  | error e =>
      rw [TokenStream.outlook_of_error hnext] at hfault
      cases hfault
  | ok next => exact ⟨_, hkind ▸ eat_of_ok hahead hnext rule, Reads.take hahead hnext, rfl⟩

/-- A token and then another rule, for which less is left to read. -/
theorem EndAlike.eat_bind {p q : Parser} (h : p.Alike q) {kind : Kind} {rule : Rule}
    {next next' : Token → Parse β}
    (hnext : ∀ t u p' q', t.spelling = u.spelling → p'.size < p.size → p'.Alike q' →
      EndAlike (next t p') (next' u q')) :
    EndAlike ((eat kind rule >>= next) p) ((eat kind rule >>= next') q) := by
  by_cases hkind : p.kind? = some kind
  · obtain ⟨t, hahead, htkind⟩ := Option.map_eq_some_iff.mp hkind
    obtain ⟨u, hahead', hsame⟩ := h.exists_lookahead hahead
    have hukind : u.kind = kind := (congrArg Spelling.kind hsame).symm.trans htkind
    obtain ⟨p', heat, hreads, hdepth⟩ := eat_of_lookahead hahead h.faultless htkind rule
    obtain ⟨q', heat', hreads', hdepth'⟩ := eat_of_lookahead hahead' h.faultless' hukind rule
    rw [bind_of_ok heat, bind_of_ok heat']
    exact hnext t u p' q' hsame (size_eat_lt heat) (h.step hreads hreads' hdepth hdepth')
  · have hkind' : q.kind? ≠ some kind := fun heq => hkind (h.kind?.trans heq)
    rw [bind_of_error (eat_of_kind?_ne hkind rule), bind_of_error (eat_of_kind?_ne hkind' rule)]
    exact .failed rfl (congrArg (ParseCause.unexpectedToken kind) h.kind?) (h.record _ _)

/-- From parsers that are alike, the rule ends alike. -/
def Blind (rule : Parse α) : Prop := ∀ p q : Parser, p.Alike q → EndAlike (rule p) (rule q)

/-! ### Steps -/

namespace Blind

theorem pure (a : α) : Blind (Pure.pure a : Parse α) := fun _ _ h => .answered a h

theorem bind {rule : Parse α} {next : α → Parse β} (h : Blind rule)
    (hnext : ∀ a, Blind (next a)) : Blind (rule >>= next) := by
  intro p q hpq
  exact (h p q hpq).bind fun a p' q' _ hpq' => hnext a p' q' hpq'

theorem peek_bind {next : Option Kind → Parse β} (h : ∀ kind, Blind (next kind)) :
    Blind (peek >>= next) := by
  intro p q hpq
  have hstep : EndAlike (next p.kind? p) (next q.kind? q) := by
    rw [← hpq.kind?]
    exact h p.kind? p q hpq
  exact hstep

theorem note_bind {event : Cursor → Event} {next : Unit → Parse β} (h : Blind (next ())) :
    Blind (note event >>= next) := by
  intro p q hpq
  exact h _ _ (hpq.record [event p.toCursor] [event q.toCursor])

theorem eat_bind {kind : Kind} {rule : Rule} {next : Parse β} (h : Blind next) :
    Blind (eat kind rule >>= fun _ => next) := by
  intro p q hpq
  exact .eat_bind hpq fun _ _ p' q' _ _ hpq' => h p' q' hpq'

theorem fail {rule : Rule} {cause : Cursor → ParseCause}
    (hcause : ∀ p q : Parser, p.Alike q → cause p.toCursor = cause q.toCursor) :
    Blind (Parse.fail rule cause : Parse α) := by
  intro p q hpq
  exact .fail hpq rule (hcause p q hpq)

/-- Most rules give up because of the kind of the token read ahead. -/
theorem fail_of_kind? {rule : Rule} (cause : Option Kind → ParseCause) :
    Blind (Parse.fail rule (fun c => cause c.kind?) : Parse α) :=
  .fail fun _ _ h => congrArg cause h.kind?

theorem tooDeep (rule : Rule) : Blind (Parse.tooDeep rule : Parse α) :=
  .fail fun _ _ h => congrArg ParseCause.nestingTooDeep h.depth

theorem within {rule : Rule} {body : Parse α} (h : Blind body) :
    Blind (Parse.within rule body) := by
  intro p q hpq
  have hinside := h _ _ (hpq.entering rule)
  rw [within_apply, within_apply]
  rcases hrun : body (p.entering rule) with ⟨answer, p'⟩
  rcases hrun' : body (q.entering rule) with ⟨answer', q'⟩
  rw [hrun, hrun'] at hinside
  cases hinside with
  | answered a halike => exact .answered a (halike.leaving rule)
  | failed hrule hcause halike => exact .failed hrule hcause (halike.leaving rule)

theorem ite {c : Prop} [Decidable c] {rule rule' : Parse α} (h : Blind rule) (h' : Blind rule') :
    Blind (if c then rule else rule') := by
  split
  · exact h
  · exact h'

/-! ### Loops -/

/-- The rounds of a loop are counted by what is left to read, which may differ.
But a round that uses a token leaves less, so neither run gets to the end of its
count. -/
theorem collectWhile {accepts : Kind → Bool} {rule : Parse α}
    (hshrinks : ∀ p a p', rule p = (.ok a, p') → p'.size < p.size) (h : Blind rule) :
    Blind (Parse.collectWhile accepts rule) := by
  intro p
  induction hsize : p.size using Nat.strong_induction_on generalizing p with
  | _ n ih =>
    intro q hpq
    rw [collectWhile_eq hshrinks, collectWhile_eq hshrinks, hpq.kind?]
    by_cases haccepts : q.kind?.any accepts = true
    · rw [if_pos haccepts]
      refine (h p q hpq).bind fun a p' q' hrun hpq' => ?_
      have hlt := hshrinks p a p' hrun
      have hmore := ih p'.size (by omega) p' rfl q' hpq'
      exact hmore.bind fun more p'' q'' _ hpq'' => .answered (a :: more) hpq''
    · rw [if_neg haccepts]
      exact .answered [] hpq

theorem operands {rule : Rule} {op? : Kind → Option BinaryOp} {operand : Parse Expr}
    (hkeeps : ∀ p a p', operand p = (.ok a, p') → p'.size ≤ p.size) (h : Blind operand)
    (left : Expr) : Blind (Parse.operands rule op? operand left) := by
  intro p
  induction hsize : p.size using Nat.strong_induction_on generalizing p left with
  | _ n ih =>
    intro q hpq
    rw [operands_eq hkeeps, operands_eq hkeeps, hpq.kind?]
    cases q.kind?.bind op? with
    | none => exact .answered left hpq
    | some op =>
        refine .eat_bind hpq fun _ _ p₁ q₁ _ hlt hpq₁ => ?_
        refine (h p₁ q₁ hpq₁).bind fun right p₂ q₂ hrun hpq₂ => ?_
        have hle := hkeeps p₁ right p₂ hrun
        exact ih p₂.size (by omega) (.binary op left right) p₂ rfl q₂ hpq₂

theorem leftGrouped {rule : Rule} {op? : Kind → Option BinaryOp} {operand : Parse Expr}
    (hkeeps : ∀ p a p', operand p = (.ok a, p') → p'.size ≤ p.size) (h : Blind operand) :
    Blind (Parse.leftGrouped rule op? operand) := by
  rw [leftGrouped_eq]
  exact h.bind fun left => h.operands hkeeps left

end Blind

/-! ### Expressions -/

theorem identifier_blind : Blind identifier := by
  intro p q hpq
  refine .eat_bind hpq fun t u p' q' hsame _ hpq' => ?_
  have htext : t.raw = u.raw := congrArg Spelling.text hsame
  rw [htext]
  exact .answered u.raw hpq'

theorem literal_blind : Blind literal := by
  refine .peek_bind fun kind => ?_
  split
  · intro p q hpq
    refine .eat_bind hpq fun t u p' q' hsame _ hpq' => ?_
    have hvalue : t.value = u.value := congrArg Spelling.value hsame
    rw [hvalue]
    exact .answered _ hpq'
  · exact .fail_of_kind? _

theorem target_blind (bare : Bool) (e : Expr) : Blind (target bare e) := by
  have hrefused : ∀ found, Blind (fail .assignmentExpression fun _ =>
      .invalidAssignmentTarget found : Parse String) := fun _ => .fail fun _ _ _ => rfl
  cases e with
  | identifier name =>
      cases bare with
      | true => exact .pure name
      | false => exact hrefused _
  | literal l => exact hrefused _
  | binary op left right => exact hrefused _
  | assign name value => exact hrefused _

theorem parenthesized_blind {inner : Parse Expr} (h : Blind inner) :
    Blind (parenthesized inner) :=
  .eat_bind (h.bind fun e => .eat_bind (.pure e))

theorem primary_blind {inner : Parse Expr} (h : Blind inner) : Blind (primary inner) := by
  have hrefused : Blind (fail .primaryExpression fun c => .unexpectedPrimary c.kind? :
      Parse Expr) := .fail_of_kind? _
  refine .peek_bind fun kind => ?_
  split
  · exact parenthesized_blind h
  · exact identifier_blind.bind fun name => .pure _
  · exact .ite (literal_blind.bind fun l => .pure _) hrefused
  · exact hrefused

theorem multiplicative_blind {n : Nat} (h : Blind (assignment n)) :
    Blind (multiplicative (assignment n)) := by
  refine .leftGrouped ?_ (primary_blind h)
  intro p e p' hrun
  exact size_le_of_reads (primary_reads (assignment_reads n)) hrun

theorem additive_blind {n : Nat} (h : Blind (assignment n)) :
    Blind (additive (assignment n)) := by
  refine .leftGrouped ?_ (multiplicative_blind h)
  intro p e p' hrun
  exact size_le_of_reads (multiplicative_reads (assignment_reads n) p) hrun

/-- **Expressions.** -/
theorem assignment_blind (n : Nat) : Blind (assignment n) := by
  induction n with
  | zero => exact .tooDeep _
  | succ n ih =>
      refine .within (.peek_bind fun first => (additive_blind ih).bind fun left =>
        .peek_bind fun next => .ite ?_ (.pure left))
      exact (target_blind _ left).bind fun name => .eat_bind (ih.bind fun value => .pure _)

/-! ### Statements -/

theorem declarator_blind (n : Nat) : Blind (declarator (assignment n)) := by
  refine identifier_blind.bind fun name => .peek_bind fun next => .ite ?_ (.pure _)
  exact .eat_bind ((assignment_blind n).bind fun init => .pure _)

theorem declaration_blind (n : Nat) (binding : Binding) :
    Blind (declaration (assignment n) binding) := by
  refine .eat_bind ((declarator_blind n).bind fun first => ?_)
  refine (Blind.collectWhile ?_ (.eat_bind (declarator_blind n))).bind fun more => .pure _
  intro p d p' hrun
  refine size_lt_of_reads (nextDeclarator_reads n p) ?_ hrun
  rintro ts d ⟨hcomma, hnext⟩
  exact List.cons_ne_nil _ _

theorem size_statement_lt {n : Nat} {p p' : Parser} {s : Stmt}
    (h : statement n p = (.ok s, p')) : p'.size < p.size :=
  size_lt_of_reads (statement_reads n p)
    (fun _ _ hphrase => Grammar.ne_nil_of_startsWith hphrase.begins) h

theorem block_blind {n : Nat} (h : Blind (statement n)) : Blind (block (statement n)) := by
  refine .eat_bind ((h.collectWhile ?_).bind fun body => .eat_bind (.pure _))
  exact fun p s p' => size_statement_lt

theorem ifStatement_blind {n : Nat} (h : Blind (statement n)) :
    Blind (ifStatement (assignment n) (statement n)) := by
  refine .eat_bind ((parenthesized_blind (assignment_blind n)).bind fun test =>
    h.bind fun consequent => .peek_bind fun next => .ite ?_ (.pure _))
  exact .eat_bind (h.bind fun alternate => .pure _)

/-- **Statements.** -/
theorem statement_blind (n : Nat) : Blind (statement n) := by
  induction n with
  | zero => exact .note_bind (.tooDeep _)
  | succ n ih =>
      refine .note_bind (.within (.peek_bind fun first => ?_))
      split
      · exact ifStatement_blind ih
      · exact block_blind ih
      · exact declaration_blind n .letBinding
      · exact declaration_blind n .constBinding
      · exact (assignment_blind n).bind fun e => .pure _
      · exact .fail_of_kind? _

/-- **Programs.** -/
theorem program_blind (n : Nat) : Blind (program n) :=
  ((statement_blind n).collectWhile fun _ _ _ => size_statement_lt).bind fun _ => .pure _

/-- **Single expressions.** -/
theorem soleExpression_blind (n : Nat) : Blind (soleExpression n) := by
  refine (assignment_blind n).bind fun e => .peek_bind fun next => ?_
  split
  · exact .pure e
  · exact .fail_of_kind? _

end Parse

end TildeLang
