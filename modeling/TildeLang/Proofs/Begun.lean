import TildeLang.Proofs.Calls
import TildeLang.Proofs.Comparison
import TildeLang.Proofs.Parts
import TildeLang.Proofs.Positions

/-!
# Statements that have been begun

A run notes the position at which it begins a statement, and a run that answers
has begun the statements of its answer and no others.  Each of them is begun at
a token of its own, which is its first; so the positions are noted in the order
of the source, and none of them twice.

* `Position.Before` — the order of positions;
* `TokenStream.outlook_positions` — tokens stand one after another;
* `begun` — the positions that a history notes;
* `silent` — expressions begin no statement;
* `Parser.Begins` — so many statements have been begun, at tokens that have been
  used;
* `statement_begins`, `program_begins` — they are those of the answer.
-/

namespace TildeLang

/-! ### The order of positions -/

/-- One position comes before another: on an earlier line, or on the same line
and further to the left. -/
def Position.Before (p q : Position) : Prop :=
  p.line < q.line ∨ p.line = q.line ∧ p.column < q.column

namespace Position

variable {p : Position} {text : List Char}

theorem before_nextLine (p : Position) : p.Before p.nextLine :=
  Or.inl (Nat.lt_succ_self _)

theorem before_nextColumn (p : Position) : p.Before p.nextColumn :=
  Or.inr ⟨rfl, Nat.lt_succ_self _⟩

theorem Before.of_not_before {q r : Position} (h : p.Before q) (h' : ¬r.Before q) :
    p.Before r := by
  unfold Before at *
  omega

theorem Before.asymm {q : Position} (h : p.Before q) : ¬q.Before p := by
  unfold Before at *
  omega

/-- A piece of text leads to no earlier position. -/
theorem not_advance_before (p : Position) (text : List Char) : ¬(p.advance text).Before p := by
  fun_induction advance p text with
  | case1 p => simp [Before]
  | case2 p rest ih => exact (p.before_nextLine.of_not_before ih).asymm
  | case3 p c rest hpair hc ih => exact (p.before_nextLine.of_not_before ih).asymm
  | case4 p c rest hpair hc ih => exact (p.before_nextColumn.of_not_before ih).asymm

/-- A piece that is not empty leads to a later position. -/
theorem before_advance (h : text ≠ []) : p.Before (p.advance text) := by
  fun_cases advance p text with
  | case1 => exact absurd rfl h
  | case2 rest => exact p.before_nextLine.of_not_before (not_advance_before _ _)
  | case3 c rest hpair hc => exact p.before_nextLine.of_not_before (not_advance_before _ _)
  | case4 c rest hpair hc => exact p.before_nextColumn.of_not_before (not_advance_before _ _)

end Position

namespace TokenStream

variable {s next s' : TokenStream} {t : Token}

/-- A token stands before the place that its stream has reached after it. -/
theorem scan_before (h : s.scan tokenTable = .ok (some (t, next))) :
    t.position.Before next.position := by
  obtain ⟨row, taken, rest, value, hrow, hsplit, _, rfl, rfl⟩ := scan_eq_some h
  rw [after_position hrow hsplit]
  exact Position.before_advance (Row.split_ne_nil hsplit)

theorem Reaches.not_before (h : s.Reaches s') : ¬s'.position.Before s.position := by
  induction h with
  | refl s => simp [Position.Before]
  | step hscan _ ih =>
      rw [← (scan_place hscan).2.2]
      exact ((scan_before hscan).of_not_before ih).asymm

/-- **Tokens stand one after another.** -/
theorem outlook_positions (s : TokenStream) :
    s.outlook.1.Pairwise fun t u => t.position.Before u.position := by
  fun_induction outlook s with
  | case1 s scanned e next hs => exact .nil
  | case2 s scanned next hs => exact .nil
  | case3 s scanned t next hs later ih =>
      refine .cons ?_ ih
      intro u hu
      obtain ⟨_, _, hscan⟩ := nextToken_reaches hs
      obtain ⟨s', _, hreaches, hscan'⟩ := mem_outlook hu
      rw [(scan_place hscan').2.2]
      exact (scan_before hscan).of_not_before hreaches.not_before

end TokenStream

/-! ### Positions that are noted -/

/-- The position at which an event says that a statement is begun. -/
def Event.begun? : Event → Option Position
  | statement position => some position
  | _ => none

/-- The positions at which statements have been begun in a history, in the order
of the notes. -/
def begun (history : List Moment) : List Position :=
  (history.filterMap fun m => m.event.begun?).reverse

/-- What events add to the positions that have been noted. -/
theorem Parser.begun_record (p : Parser) (events : List Event) :
    begun (p.record events).history = begun p.history ++ events.filterMap Event.begun? := by
  simp [begun, record, List.filterMap_map]

namespace Parse

variable {α β : Type} {p p' : Parser}

/-- Fetching a token begins no statement. -/
theorem begun_fetch {events : List Event} (h : events.filterMap Event.begun? = []) (p : Parser) :
    begun (fetch events p).2.history = begun p.history := by
  unfold fetch
  split
  · simp [Parser.begun_record, Parser.moveTo, h, Event.begun?]
  · simp [Parser.begun_record, Parser.moveTo, h, Event.begun?]

theorem begun_bind {rule : Parse α} {next : α → Parse β}
    (hrule : begun (rule p).2.history = begun p.history)
    (hnext : ∀ a q, rule p = (.ok a, q) → begun (next a q).2.history = begun q.history) :
    begun ((rule >>= next) p).2.history = begun p.history := by
  rcases hrun : rule p with ⟨answer, q⟩
  rw [hrun] at hrule
  cases answer with
  | ok a =>
      rw [bind_of_ok hrun]
      exact (hnext a q hrun).trans hrule
  | error e =>
      rw [bind_of_error hrun]
      exact hrule

/-- Using a token that is expected is fetching the next. -/
theorem eat_eq_fetch {t : Token} (hahead : p.lookahead = some t) (rule : Rule) :
    eat t.kind rule p = (fetch [.took t] >>= fun _ => pure t) p := by
  simp only [eat, hahead, ite_true]
  rfl

theorem begun_eat (kind : Kind) (rule : Rule) (p : Parser) :
    begun (eat kind rule p).2.history = begun p.history := by
  by_cases hkind : p.kind? = some kind
  · obtain ⟨t, hahead, rfl⟩ := Option.map_eq_some_iff.mp hkind
    rw [eat_eq_fetch hahead]
    exact begun_bind (begun_fetch rfl p) fun _ _ _ => rfl
  · rw [eat_of_kind?_ne hkind]
    exact (p.begun_record _).trans (List.append_nil _)

/-- Beginning no statement is a comparison, as far as nothing is noted. -/
def silent : QuietComparison where
  Holds p _ rule' := begun (rule' p).2.history = begun p.history
  congr h _ hrule' := hrule' ▸ h
  pure _ _ := rfl
  eat p kind rule := begun_eat kind rule p
  fail p _ _ _ := (p.begun_record _).trans (List.append_nil _)
  bind := begun_bind

/-- **Expressions** begin no statement. -/
theorem assignment_silent (n : Nat) (p : Parser) :
    silent.Holds p (assignment n) (assignment n) := by
  refine QuietComparison.expressions (k := 0) (fun _ => silent) ?_ ?_ n p
  · intro _ p body body' h
    have hopening : begun (p.entering .assignmentExpression).history = begun p.history := rfl
    exact h.trans hopening
  · exact fun p => (p.begun_record _).trans (List.append_nil _)

end Parse

/-! ### Statements of an answer -/

/-- A run has used some tokens and begun so many statements, each at a place of its
own: the places are some of the tokens, in their order. -/
structure Parser.Begins (p : Parser) (ts places : List Token) (count : Nat) (p' : Parser) :
    Prop where
  reads : Reads p ts p'
  exists_firsts : ∃ firsts : List Token, firsts.Sublist places ∧ firsts.length = count ∧
    begun p'.history = begun p.history ++ firsts.map Token.position

/-- So many statements have been begun. -/
def Parser.BeginsSome (p : Parser) (count : Nat) (p' : Parser) : Prop :=
  ∃ ts, p.Begins ts ts count p'

/-- So many statements have been begun, none of them at the first token. -/
def Parser.BeginsLater (p : Parser) (count : Nat) (p' : Parser) : Prop :=
  ∃ t us, p.Begins (t :: us) us count p'

/-- The outcome that claims of a statement that the statements inside it have been
begun, none of them at the first token. -/
abbrev Outcome.insideBegun (p : Parser) : Outcome Stmt :=
  .answering fun s p' => ∃ count, count + 1 = s.statements.length ∧ p.BeginsLater count p'

namespace Parser

variable {p q r : Parser} {ts us places places' : List Token} {count more : Nat}

theorem Begins.of_silent (hreads : Reads p ts q) (hsilent : begun q.history = begun p.history) :
    p.Begins ts [] 0 q :=
  ⟨hreads, [], List.nil_sublist _, rfl, by simpa using hsilent⟩

theorem Begins.append (h : p.Begins ts places count q) (h' : q.Begins us places' more r) :
    p.Begins (ts ++ us) (places ++ places') (count + more) r := by
  obtain ⟨hreads, firsts, hsub, hlength, hbegun⟩ := h
  obtain ⟨hreads', firsts', hsub', hlength', hbegun'⟩ := h'
  refine ⟨hreads.append hreads', firsts ++ firsts', hsub.append hsub', ?_, ?_⟩
  · rw [List.length_append, hlength, hlength']
  · rw [hbegun', hbegun, List.map_append, List.append_assoc]

theorem Begins.widen (h : p.Begins ts places count q) (hle : places.Sublist places') :
    p.Begins ts places' count q := by
  obtain ⟨hreads, firsts, hsub, hrest⟩ := h
  exact ⟨hreads, firsts, hsub.trans hle, hrest⟩

/-- A statement is noted at its first token, and those inside it are begun later. -/
theorem BeginsLater.statement {rule : Rule}
    (h : ((p.record [.statement p.position]).entering rule).BeginsLater count q) :
    p.BeginsSome (count + 1) (q.leaving rule) := by
  obtain ⟨t, us, hreads, firsts, hsub, hlength, hbegun⟩ := h
  have hahead : p.lookahead = some t := hreads.lookahead
  have hposition : p.position = t.position := by simp [Cursor.position, hahead]
  refine ⟨t :: us, ?_, t :: firsts, hsub.cons_cons t, by simp [hlength], ?_⟩
  · exact (Reads.note p (.statement p.position)).append hreads.nest
  · have hnote : begun ((p.record [.statement p.position]).entering rule).history
        = begun p.history ++ [t.position] := by
      rw [← hposition]
      exact p.begun_record [.statement p.position]
    have hleft : begun (q.leaving rule).history = begun q.history := rfl
    rw [hleft, hbegun, hnote, List.map_cons, List.append_assoc, List.singleton_append]

end Parser

namespace Parse

open Grammar

variable {α : Type} {n : Nat} {p p' : Parser}

/-- A rule that reads phrases and is silent begins no statement. -/
theorem begins_of_silent {rule : Parse α} {phrases : Nat → Phrases α}
    (hreads : rule.Leads p (.reading p n phrases)) (hsilent : silent.Holds p rule rule) {a : α}
    (hrun : rule p = (.ok a, p')) : ∃ ts, phrases n ts a ∧ p.Begins ts [] 0 p' := by
  obtain ⟨ts, htrace, hphrase⟩ := hreads.of_ok hrun
  have hsilent : begun (rule p).2.history = begun p.history := hsilent
  rw [hrun] at hsilent
  exact ⟨ts, hphrase, .of_silent htrace hsilent⟩

theorem begins_of_eat {kind : Kind} {rule : Rule} {t : Token}
    (hrun : eat kind rule p = (.ok t, p')) : p.Begins [t] [] 0 p' := by
  obtain ⟨ts, ⟨rfl, _⟩, hbegins⟩ := begins_of_silent (n := 0) eat_reads (begun_eat kind rule p) hrun
  exact hbegins

/-- The rule begins the statements of its answer, and no others. -/
def BeginsStatements (rule : Parse Stmt) : Prop :=
  ∀ p, rule.Leads p (.answering fun s p' => p.BeginsSome s.statements.length p')

/-- **Lists of statements.** -/
theorem collectWhile_begins {accepts : Kind → Bool} {rule : Parse Stmt}
    (hrule : BeginsStatements rule)
    (hshrinks : ∀ p s p', rule p = (.ok s, p') → p'.size < p.size) (p : Parser) :
    (collectWhile accepts rule).Leads p
      (.answering fun body p' => p.BeginsSome (Stmt.statementsAll body).length p') := by
  -- Every round makes the parser smaller, so the induction is on its size.
  generalize hsize : p.size = size
  induction size using Nat.strongRecOn generalizing p with
  | ind size ih =>
      refine Leads.congr (collectWhile_eq hshrinks) ?_
      by_cases haccepts : p.kind?.any accepts = true
      · rw [if_pos haccepts]
        refine answering_bind fun s q hrun => answering_bind fun body r hmore => ?_
        have hlt := hshrinks p s q hrun
        obtain ⟨ts, hfirst⟩ := (hrule p).of_ok hrun
        obtain ⟨us, hrest⟩ := (ih q.size (by omega) q rfl).of_ok hmore
        refine ⟨ts ++ us, ?_⟩
        simpa [Stmt.statementsAll] using hfirst.append hrest
      · rw [if_neg haccepts]
        exact ⟨[], .stay p, [], .refl [], rfl, by simp⟩

theorem declaration_begins (binding : Binding) (p : Parser) :
    (declaration (assignment n) binding).Leads p (.insideBegun p) := by
  refine .intro (fun s p' hrun => ?_) (fun _ _ _ => trivial) fun _ _ _ => trivial
  have hone : (declaration (assignment n) binding).Leads p
      (.answering fun s _ => s.statements.length = 1) :=
    answering_bind fun _ _ _ => answering_bind fun _ _ _ => answering_bind fun _ _ _ => rfl
  have hsilent := silent.declaration (p := p) binding fun q _ => assignment_silent n q
  obtain ⟨ts, hphrase, hbegins⟩ := begins_of_silent (declaration_reads n binding p) hsilent hrun
  have hphrase : Statement (n + 1) ts s := hphrase
  cases ts with
  | nil => exact absurd rfl (ne_nil_of_startsWith hphrase.begins)
  | cons t us => exact ⟨0, (hone.of_ok hrun).symm, t, us, hbegins.widen (List.nil_sublist us)⟩

theorem expression_begins (p : Parser) :
    (do return .expression (← assignment n) : Parse Stmt).Leads p (.insideBegun p) := by
  refine answering_bind fun e q hrun => ?_
  obtain ⟨ts, hphrase, hbegins⟩ :=
    begins_of_silent (assignment_reads n p) (assignment_silent n p) hrun
  cases ts with
  | nil => exact absurd rfl (ne_nil_of_startsWith hphrase.begins)
  | cons t us => exact ⟨0, rfl, t, us, hbegins.widen (List.nil_sublist us)⟩

section Statements

variable (hstatement : BeginsStatements (statement n))
include hstatement

theorem statementList_begins (accepts : Kind → Bool) (p : Parser) :
    (collectWhile accepts (statement n)).Leads p
      (.answering fun body p' => p.BeginsSome (Stmt.statementsAll body).length p') := by
  refine collectWhile_begins hstatement ?_ p
  exact fun q s q' => size_lt_of_reads (statement_reads n q) fun _ _ h =>
    ne_nil_of_startsWith h.begins

theorem block_begins (p : Parser) :
    (block (statement n)).Leads p (.insideBegun p) := by
  refine answering_bind fun left p₁ hleft => answering_bind fun body p₂ hbody =>
    answering_bind fun right p₃ hright => ?_
  obtain ⟨ts, hinside⟩ := (statementList_begins hstatement _ p₁).of_ok hbody
  have hall := (begins_of_eat hleft).append (hinside.append (begins_of_eat hright))
  refine ⟨(Stmt.statementsAll body).length, by simp [Stmt.statements], left, ts ++ [right], ?_⟩
  simpa using hall.widen (by simp)

theorem ifStatement_begins (p : Parser) :
    (ifStatement (assignment n) (statement n)).Leads p (.insideBegun p) := by
  refine answering_bind fun word p₁ hword => answering_bind fun test p₂ htest =>
    answering_bind fun consequent p₃ hconsequent => leads_peek_bind.mpr ?_
  have hsilent := silent.parenthesized (p := p₁) fun q _ => assignment_silent n q
  obtain ⟨ts, _, htest⟩ :=
    begins_of_silent (parenthesized_reads (assignment_reads n)) hsilent htest
  obtain ⟨us, hconsequent⟩ := (hstatement p₂).of_ok hconsequent
  have hthen := htest.append hconsequent
  split
  · refine answering_bind fun other p₄ hother => answering_bind fun alternate p₅ halternate => ?_
    obtain ⟨vs, halternate⟩ := (hstatement p₄).of_ok halternate
    have helse := (begins_of_eat hother).append halternate
    have hall := (begins_of_eat hword).append (hthen.append helse)
    refine ⟨_, ?_, word, _, hall.widen ?_⟩
    · simp [Stmt.statements]
    · simp
  · have hall := (begins_of_eat hword).append hthen
    refine ⟨_, ?_, word, _, hall.widen ?_⟩
    · simp [Stmt.statements]
    · simp

theorem statementLevel_begins (p : Parser) :
    (statementLevel (assignment n) (statement n)).Leads p (.insideBegun p) := by
  refine leads_peek_bind.mpr ?_
  split
  · exact ifStatement_begins hstatement p
  · exact block_begins hstatement p
  · exact declaration_begins _ p
  · exact declaration_begins _ p
  · exact expression_begins p
  · exact trivial

end Statements

/-- **Statements** begin themselves and the statements inside them. -/
theorem statement_begins (n : Nat) : BeginsStatements (statement n) := by
  induction n with
  | zero => exact fun p => leads_note_bind.mpr trivial
  | succ n ih =>
      intro p
      refine leads_note_bind.mpr (leads_within.mpr ?_)
      refine (statementLevel_begins ih _).imp ?_ (fun _ _ _ => trivial) fun _ _ _ => trivial
      rintro s q ⟨count, hcount, hbegins⟩
      change p.BeginsSome s.statements.length (q.leaving .statement)
      rw [← hcount]
      exact hbegins.statement

/-- **Programs.** -/
theorem program_begins (n : Nat) (p : Parser) :
    (program n).Leads p
      (.answering fun program p' => p.BeginsSome program.statements.length p') :=
  leads_bind.mpr (statementList_begins (statement_begins n) _ p)

end Parse

/-- **A source.**  A run over a source that answers has begun the statements of its
answer, in the order of the source. -/
theorem Parser.parse_begun {p : Parser} {source : String} {program : Program}
    (h : (p.parse source).1 = .ok program) :
    (begun (p.parse source).2.history).length = program.statements.length ∧
      (begun (p.parse source).2.history).Pairwise Position.Before := by
  have hleads : (parseWithin maxNesting source).Leads p (.answering fun program p' =>
      (begun p'.history).length = program.statements.length ∧
        (begun p'.history).Pairwise Position.Before) := by
    refine Parse.answering_bind fun _ q hrestart => Parse.answering_bind fun program r hrun =>
      Parse.leads_note_bind.mpr ?_
    have hfront : (restart source [.began source.utf8ByteSize]).Leads p
        (.answering fun _ q => q.AtFront source) :=
      leads_restart (fun _ hq => hq) fun _ _ _ => trivial
    have hnone : begun q.history = [] := by
      have hfetch : begun (Parse.fetch [.began source.utf8ByteSize] (ofText source)).2.history
          = begun (ofText source).history := Parse.begun_fetch rfl (ofText source)
      rwa [show Parse.fetch _ (ofText source) = _ from hrestart] at hfetch
    obtain ⟨ts, hreads, firsts, hsub, hlength, hbegun⟩ :=
      (Parse.program_begins maxNesting q).of_ok hrun
    have hupcoming : q.upcoming = (TokenStream.ofText source).outlook.1 :=
      congrArg Prod.fst (hfront.of_ok hrestart).outlook
    have hfirsts : firsts.Sublist (TokenStream.ofText source).outlook.1 := by
      rw [← hupcoming, hreads.upcoming]
      exact hsub.trans (List.sublist_append_left ts _)
    have hnoted : begun (r.record [.finished program.body.length]).history
        = firsts.map Token.position := by
      rw [begun_record, hbegun, hnone]
      exact List.append_nil _
    change (begun (r.record [.finished program.body.length]).history).length = _ ∧ _
    rw [hnoted]
    refine ⟨(List.length_map _).trans hlength, List.pairwise_map.mpr ?_⟩
    exact (TokenStream.outlook_positions _).sublist hfirsts
  exact hleads.of_ok (Prod.ext h rfl)

end TildeLang
