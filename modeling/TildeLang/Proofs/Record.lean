import TildeLang.Log
import TildeLang.Proofs.Begun
import TildeLang.Proofs.Conservation
import TildeLang.Proofs.Failures
import TildeLang.Proofs.Walk

/-!
# The log is a record of the run

A run reports the tokens that it scans, the statements that it begins, the error
at which it fails and the program that it has read.  So its log tells what it has
done: which part of the source has been scanned, how many statements there are and
where, and how the run has ended.

* `LogEntry.isTrace`, `LogEntry.tellsStatement`, `LogEntry.tellsFailure`,
  `LogEntry.tellsClosing` — the kinds of message, told by their level and text;
* `LexemesRead` — how far a source is scanned before a result;
* `recording` — what the steps of the rules report, and every rule made of them;
* `log_faithful` — the log of a run over a source is a record of it.
-/

namespace TildeLang

/-! ### Messages -/

/-- The message that a statement is begun at a position. -/
def Position.logEntry (p : Position) : LogEntry := ⟨.debug, s!"statement at {p.describe}"⟩

/-- The message that a rule has failed. -/
def ParseError.logEntry (e : ParseError) : LogEntry :=
  ⟨.debug, s!"{e.rule.name} failed: {e.message}"⟩

/-- The message that a program has been read. -/
def Program.logEntry (program : Program) : LogEntry :=
  ⟨.info, s!"parsed {program.body.length} top-level statements"⟩

namespace LogEntry

/-- Whether a message tells of a token that has been scanned. -/
def isTrace (entry : LogEntry) : Bool := entry.level == .trace

/-- Whether a message tells that a statement is begun. -/
def tellsStatement (entry : LogEntry) : Bool :=
  entry.level == .debug && "statement at ".toList.isPrefixOf entry.message.toList

/-- Whether a message tells that a rule has failed. -/
def tellsFailure (entry : LogEntry) : Bool :=
  entry.level == .debug && decide (" failed: ".toList <:+: entry.message.toList)

/-- Whether a message tells that a program has been read. -/
def tellsClosing (entry : LogEntry) : Bool :=
  entry.level == .info && "parsed ".toList.isPrefixOf entry.message.toList

/-- Whether a message tells neither of a token nor of the end of the run. -/
def Plain (entry : LogEntry) : Prop :=
  entry.isTrace = false ∧ entry.tellsFailure = false ∧ entry.tellsClosing = false

theorem tellsFailure_iff {entry : LogEntry} :
    entry.tellsFailure = true ↔
      entry.level = .debug ∧ " failed: ".toList <:+: entry.message.toList := by
  rw [tellsFailure, Bool.and_eq_true, beq_iff_eq, decide_eq_true_iff]

end LogEntry

open LogEntry

section Concat

variable {tells : LogEntry → Bool} {log : List LogEntry} {entry : LogEntry}

theorem filter_concat_of_true (h : tells entry = true) :
    (log ++ [entry]).filter tells = log.filter tells ++ [entry] := by
  rw [List.filter_append, List.filter_cons_of_pos h, List.filter_nil]

theorem filter_concat_of_false (h : tells entry = false) :
    (log ++ [entry]).filter tells = log.filter tells := by
  rw [List.filter_append, List.filter_cons_of_neg (Bool.eq_false_iff.mp h), List.filter_nil,
    List.append_nil]

end Concat

theorem not_mem_toString {c : Char} (hc : c.isDigit = false) (n : Nat) :
    c ∉ (toString n).toList := by
  rw [Nat.toString_eq_ofList_toDigits, String.toList_ofList]
  intro hmem
  have hdigit := Nat.isDigit_of_mem_toDigits (by decide) (by decide) hmem
  exact Bool.false_ne_true (hc.symm.trans hdigit)

namespace Position

/-- No failure is told of where a statement is begun: the message has no `f`. -/
theorem tellsFailure_logEntry (p : Position) : p.logEntry.tellsFailure = false := by
  have hline := not_mem_toString (c := 'f') rfl p.line
  have hcolumn := not_mem_toString (c := 'f') rfl p.column
  have hno : 'f' ∉ p.logEntry.message.toList := by
    change 'f' ∉ ("statement at " ++ ("line " ++ toString p.line ++ " column "
      ++ toString p.column)).toList
    simp only [String.toList_append, List.mem_append, not_or]
    exact ⟨by decide, ⟨⟨by decide, hline⟩, by decide⟩, hcolumn⟩
  rw [Bool.eq_false_iff]
  intro h
  exact hno ((tellsFailure_iff.mp h).2.subset (by decide))

theorem tellsStatement_logEntry (p : Position) : p.logEntry.tellsStatement = true := by
  change (true && List.isPrefixOf _ ("statement at " ++ p.describe).toList) = true
  rw [String.toList_append, Bool.true_and, List.isPrefixOf_iff_prefix]
  exact List.prefix_append _ _

theorem plain_logEntry (p : Position) : p.logEntry.Plain :=
  ⟨rfl, p.tellsFailure_logEntry, rfl⟩

end Position

namespace ParseError

theorem tellsFailure_logEntry (e : ParseError) : e.logEntry.tellsFailure = true := by
  refine tellsFailure_iff.mpr ⟨rfl, ?_⟩
  change _ <:+: (e.rule.name ++ " failed: " ++ e.message).toList
  rw [String.toList_append, String.toList_append]
  exact ⟨_, _, rfl⟩

theorem isTrace_logEntry (e : ParseError) : e.logEntry.isTrace = false := rfl

theorem tellsClosing_logEntry (e : ParseError) : e.logEntry.tellsClosing = false := rfl

/-- No statement is told of where a rule fails: rules have names in capitals. -/
theorem tellsStatement_logEntry (e : ParseError) : e.logEntry.tellsStatement = false := by
  change (true && List.isPrefixOf _ (e.rule.name ++ " failed: " ++ e.message).toList) = false
  rw [String.toList_append, String.toList_append]
  cases e.rule <;> rfl

end ParseError

theorem Program.isTrace_logEntry (program : Program) : program.logEntry.isTrace = false := rfl

theorem Program.tellsFailure_logEntry (program : Program) :
    program.logEntry.tellsFailure = false := rfl

theorem Program.tellsClosing_logEntry (program : Program) :
    program.logEntry.tellsClosing = true := by
  change (true && List.isPrefixOf _ ("parsed " ++ toString program.body.length
    ++ " top-level statements").toList) = true
  rw [String.toList_append, String.toList_append, List.append_assoc, Bool.true_and,
    List.isPrefixOf_iff_prefix]
  exact List.prefix_append _ _

theorem Event.plain_of_began {bytes : Nat} {entry : LogEntry}
    (h : Event.logEntry? (.began bytes) = some entry) : entry.Plain := by
  obtain rfl := Option.some.inj h
  refine ⟨rfl, rfl, ?_⟩
  change (true && List.isPrefixOf _ ("parsing " ++ toString bytes ++ " bytes").toList) = false
  rw [String.toList_append, String.toList_append]
  rfl

/-! ### Scanning -/

namespace TokenStream

variable {s middle s' next : TokenStream} {ts us : List Token} {t : Token}

theorem Passes.append (h : s.Passes ts middle) (h' : middle.Passes us s') :
    s.Passes (ts ++ us) s' := by
  induction h with
  | nil s => exact h'
  | cons hscan _ ih => exact .cons hscan (ih h')

/-- The token that is answered is the last that has been scanned for it. -/
theorem nextToken_last (h : s.nextToken = ⟨ts, .ok (some t), next⟩) : ts.getLast? = some t := by
  fun_induction nextToken s generalizing ts with
  | case1 s e hs => simp at h
  | case2 s hs => simp at h
  | case3 s t' middle hs htrivia ih =>
      obtain ⟨rfl, hanswer, hstream⟩ := Fetch.mk.inj h
      have hlater : middle.nextToken = ⟨middle.nextToken.scanned, .ok (some t), next⟩ := by
        rw [← hanswer, ← hstream]
      simp [List.getLast?_cons, ih hlater]
  | case4 s t' middle hs htrivia =>
      obtain ⟨rfl, hanswer, _⟩ := Fetch.mk.inj h
      simpa using hanswer

/-- Tokens that are passed on the way to the end are all there are. -/
theorem Passes.lexemesBy_eq (h : s.Passes ts s') (hend : s'.rest = []) :
    s.lexemesBy tokenTable = .ok ts := by
  induction h with
  | nil s =>
      have hscan : s.scan tokenTable = .ok none := scan_eq_none_iff.mpr hend
      rw [lexemesBy]
      split <;> simp_all
  | cons hscan _ ih =>
      rw [lexemesBy]
      split <;> simp_all [Except.map]

end TokenStream

/-! ### What is reported on the way -/

namespace Parser

/-- The log tells of these tokens, which the stream has passed, and not yet of an
end. -/
structure Logs (source : String) (ls : List Token) (p : Parser) : Prop where
  traces : p.log.filter isTrace = ls.map Token.logEntry
  passes : (TokenStream.ofText source).Passes ls p.stream
  going : ∀ entry ∈ p.log, entry.tellsFailure = false ∧ entry.tellsClosing = false

/-- The last of the tokens is read ahead.  Nothing is read ahead only at the end of
the source. -/
structure OnRecord (source : String) (ls : List Token) (p : Parser) : Prop
    extends p.Logs source ls where
  ahead : ∀ t, p.lookahead = some t → ls.getLast? = some t ∧ t.isTrivia = false
  ended : p.lookahead = none → p.stream.rest = []

variable {source : String} {ls scanned : List Token} {p q : Parser} {events : List Event}

/-- What events add to the log. -/
theorem log_record (p : Parser) (events : List Event) :
    (p.record events).log = p.log ++ events.filterMap Event.logEntry? := by
  simp [log, record, List.filterMap_map]

theorem log_entering (p : Parser) (rule : Rule) : (p.entering rule).log = p.log :=
  (log_record _ _).trans (List.append_nil _)

theorem log_leaving (p : Parser) (rule : Rule) : (p.leaving rule).log = p.log :=
  (log_record _ _).trans (List.append_nil _)

theorem Logs.congr (h : p.Logs source ls) (hlog : q.log = p.log) (hstream : q.stream = p.stream) :
    q.Logs source ls := by
  obtain ⟨htraces, hpasses, hgoing⟩ := h
  rw [← hlog] at htraces hgoing
  exact ⟨htraces, hstream ▸ hpasses, hgoing⟩

theorem OnRecord.congr (h : p.OnRecord source ls) (hlog : q.log = p.log)
    (hstream : q.stream = p.stream) (hahead : q.lookahead = p.lookahead) :
    q.OnRecord source ls :=
  ⟨h.toLogs.congr hlog hstream, hahead ▸ h.ahead, hahead ▸ hstream ▸ h.ended⟩

/-- **One step.**  Events that are plain, and then tokens that the stream passes. -/
theorem Logs.fetched {c : Cursor} (h : p.Logs source ls)
    (hplain : ∀ event ∈ events, ∀ entry, event.logEntry? = some entry → entry.Plain)
    (hpasses : p.stream.Passes scanned c.stream) :
    ((p.moveTo c).record (events ++ scanned.map .scanned)).Logs source (ls ++ scanned) := by
  have hscanned : (scanned.map Event.scanned).filterMap Event.logEntry?
      = scanned.map Token.logEntry := by
    simp [List.filterMap_map, Function.comp_def, Event.logEntry?]
  have hlog : ((p.moveTo c).record (events ++ scanned.map .scanned)).log
      = p.log ++ (events.filterMap Event.logEntry? ++ scanned.map Token.logEntry) := by
    rw [log_record, List.filterMap_append, hscanned]
    rfl
  have hevents : ∀ entry ∈ events.filterMap Event.logEntry?, entry.Plain := by
    intro entry hentry
    obtain ⟨event, hevent, hsays⟩ := List.mem_filterMap.mp hentry
    exact hplain event hevent entry hsays
  refine ⟨?_, h.passes.append hpasses, ?_⟩
  · have hnone : (events.filterMap Event.logEntry?).filter isTrace = [] :=
      List.filter_eq_nil_iff.mpr fun entry hentry => by simp [(hevents entry hentry).1]
    have hall : (scanned.map Token.logEntry).filter isTrace = scanned.map Token.logEntry :=
      List.filter_eq_self.mpr fun entry hentry => by
        obtain ⟨t, _, rfl⟩ := List.mem_map.mp hentry
        rfl
    rw [hlog, List.filter_append, List.filter_append, h.traces, hnone, hall, List.map_append]
    rfl
  · intro entry hentry
    rw [hlog, List.mem_append, List.mem_append] at hentry
    rcases hentry with hold | hevent | hnew
    · exact h.going entry hold
    · exact (hevents entry hevent).2
    · obtain ⟨t, _, rfl⟩ := List.mem_map.mp hnew
      exact ⟨rfl, rfl⟩

end Parser

/-- The outcome that claims of the log that it tells what has been scanned, and of a
failure. -/
def Outcome.recording (α : Type) (source : String) : Outcome α where
  answers _ p := ∃ ls, p.OnRecord source ls
  fails e p := ∃ ls q, Parser.OnRecord source ls q ∧ p.lookahead = q.lookahead ∧
    p.log = q.log ++ [e.logEntry]
  breaks e p := ∃ ls, p.Logs source ls ∧ p.stream.scan tokenTable = .error e

namespace Parse

variable {α : Type} {source : String} {ls : List Token} {p : Parser}

theorem fetch_records {events : List Event} (h : p.Logs source ls)
    (hplain : ∀ event ∈ events, ∀ entry, event.logEntry? = some entry → entry.Plain) :
    (fetch events).Leads p (.recording Unit source) := by
  unfold Leads fetch
  rcases hnext : p.stream.nextToken with ⟨scanned, answer, stream⟩
  have hpasses : p.stream.Passes scanned stream := by
    simpa [hnext] using p.stream.nextToken_passes
  cases answer with
  | error e => exact ⟨_, h.fetched hplain hpasses, (TokenStream.nextToken_fails hnext).2⟩
  | ok next =>
      refine ⟨_, h.fetched hplain hpasses, ?_, ?_⟩
      · rintro t rfl
        exact ⟨by simp [TokenStream.nextToken_last hnext], TokenStream.nextToken_visible hnext⟩
      · rintro rfl
        exact (TokenStream.nextToken_ends hnext).2

theorem fail_records (h : p.OnRecord source ls) (rule : Rule) (cause : Cursor → ParseCause) :
    (fail rule cause : Parse α).Leads p (.recording α source) :=
  ⟨ls, p, h, rfl, p.log_record _⟩

theorem tooDeep_records (h : p.OnRecord source ls) (rule : Rule) :
    (tooDeep rule : Parse α).Leads p (.recording α source) :=
  fail_records h rule _

theorem eat_records (h : p.OnRecord source ls) (kind : Kind) (rule : Rule) :
    (eat kind rule).Leads p (.recording Token source) := by
  by_cases hkind : p.kind? = some kind
  · obtain ⟨t, hahead, rfl⟩ := Option.map_eq_some_iff.mp hkind
    refine .congr (eat_eq_fetch hahead rule) (leads_bind.mpr ?_)
    exact fetch_records h.toLogs (by simp [ Event.logEntry?])
  · exact .congr (eat_of_kind?_ne hkind rule) (fail_records h rule _)

theorem note_records (h : p.OnRecord source ls) :
    (note fun c => .statement c.position).Leads p (.recording Unit source) := by
  refine ⟨ls, ?_, h.ahead, h.ended⟩
  have hplain : ∀ event ∈ [Event.statement p.position], ∀ entry, event.logEntry? = some entry →
      entry.Plain := by
    rintro _ hevent entry hentry
    obtain rfl := List.mem_singleton.mp hevent
    obtain rfl := Option.some.inj hentry
    exact p.position.plain_logEntry
  have hstep := h.toLogs.fetched (c := p.toCursor) hplain (.nil _)
  rwa [List.map_nil, List.append_nil, List.append_nil] at hstep

/-- What the rules report is a comparison. -/
def recording (source : String) : Comparison where
  Holds p _ rule' := ∀ ls, p.OnRecord source ls → rule'.Leads p (.recording _ source)
  congr h _ hrule' ls hp := (h ls hp).congr hrule'
  pure _ _ ls hp := ⟨ls, hp⟩
  note _ _ hp := note_records hp
  eat _ kind rule _ hp := eat_records hp kind rule
  fail _ rule cause _ _ hp := fail_records hp rule cause
  bind hrule hnext ls hp := by
    refine leads_bind.mpr (.intro ?_ ?_ ?_)
    · intro a p' hrun
      obtain ⟨ls', hp'⟩ := (hrule ls hp).of_ok hrun
      exact hnext a p' hrun ls' hp'
    · exact fun e p' hrun => (hrule ls hp).of_grammar hrun
    · exact fun e p' hrun => (hrule ls hp).of_lexical hrun

/-- Levels are not reported. -/
theorem recording_within {rule : Rule} {body : Parse α}
    (h : ∀ ls, (p.entering rule).OnRecord source ls →
      body.Leads (p.entering rule) (.recording α source))
    (ls : List Token) (hp : p.OnRecord source ls) :
    (within rule body).Leads p (.recording α source) := by
  have hinside := h ls (hp.congr (p.log_entering rule) rfl rfl)
  refine leads_within.mpr (hinside.imp ?_ ?_ ?_)
  · rintro _ q ⟨ls', hq⟩
    exact ⟨ls', hq.congr (q.log_leaving rule) rfl rfl⟩
  · rintro e q ⟨ls', r, hr, hahead, hlog⟩
    exact ⟨ls', r, hr, hahead, (q.log_leaving rule).trans hlog⟩
  · rintro e q ⟨ls', hq, hscan⟩
    exact ⟨ls', hq.congr (q.log_leaving rule) rfl, hscan⟩

/-- **Statements** are reported as they are read. -/
theorem statement_records (n : Nat) (ls : List Token) (h : p.OnRecord source ls) :
    (statement n).Leads p (.recording Stmt source) :=
  compare_statement (k := 0) (fun _ => recording source) (fun _ _ _ _ _ => recording_within)
    (fun _ _ hp => tooDeep_records hp .assignmentExpression)
    (fun q => (recording source).bind ((recording source).note q) fun _ _ _ _ hq =>
      tooDeep_records hq .statement) n p ls h

theorem program_records (n : Nat) (ls : List Token) (h : p.OnRecord source ls) :
    (program n).Leads p (.recording Program source) :=
  (recording source).program (.limited n) (fun _ _ => statement_records n) ls h

end Parse

/-! ### Runs over a source -/

/-- The outcome of reading a source as a program, as the log tells it. -/
def Outcome.closing (source : String) : Outcome Program where
  answers program p := ∃ ls q, Parser.OnRecord source ls q ∧ q.lookahead = none ∧
    p.log = q.log ++ [program.logEntry]
  fails := (Outcome.recording Program source).fails
  breaks := (Outcome.recording Program source).breaks

namespace Parser

open Parse

theorem restart_records (source : String) (p : Parser) :
    (restart source [.began source.utf8ByteSize]).Leads p (.recording Unit source) := by
  have hfront : (ofText source).Logs source [] := ⟨rfl, .nil _, nofun⟩
  have hplain : ∀ event ∈ [Event.began source.utf8ByteSize], ∀ entry,
      event.logEntry? = some entry → entry.Plain := by
    intro event hevent entry hentry
    obtain rfl := List.mem_singleton.mp hevent
    exact Event.plain_of_began hentry
  exact fetch_records hfront hplain

/-- **Programs.**  That a program has been read is the last that is reported. -/
theorem parse_records (p : Parser) (source : String) :
    (parseWithin maxNesting source).Leads p (.closing source) := by
  refine leads_bind.mpr ((restart_records source p).imp ?_ (fun _ _ h => h) fun _ _ h => h)
  rintro _ q ⟨ls, hq⟩
  have hprogram := program_records maxNesting ls hq
  refine leads_bind.mpr (.intro ?_ (fun _ _ => hprogram.of_grammar) fun _ _ => hprogram.of_lexical)
  intro program r hrun
  obtain ⟨ls', hr⟩ := hprogram.of_ok hrun
  have hend : r.kind? = none := (program_exhausts maxNesting q).of_ok hrun
  exact ⟨ls', r, hr, Option.map_eq_none_iff.mp hend, r.log_record _⟩

/-- The messages about statements are those of the positions that have been noted. -/
theorem filter_tellsStatement (p : Parser) :
    p.log.filter tellsStatement = (begun p.history).map Position.logEntry := by
  have hevent : ∀ event : Event,
      event.logEntry?.filter tellsStatement = event.begun?.map Position.logEntry := by
    intro event
    cases event with
    | statement position => simp [Event.begun?, show Event.logEntry? (.statement position)
        = some position.logEntry from rfl, position.tellsStatement_logEntry]
    | failed e => simp [Event.begun?, show Event.logEntry? (.failed e) = some e.logEntry from rfl,
        e.tellsStatement_logEntry]
    | _ => rfl
  simp [log, begun, List.filter_filterMap, hevent, List.map_filterMap]

theorem Logs.no_failure {source : String} {ls : List Token} {p : Parser}
    (h : p.Logs source ls) : p.log.filter tellsFailure = [] :=
  List.filter_eq_nil_iff.mpr fun entry hentry => by simp [(h.going entry hentry).1]

theorem Logs.no_closing {source : String} {ls : List Token} {p : Parser}
    (h : p.Logs source ls) : p.log.filter tellsClosing = [] :=
  List.filter_eq_nil_iff.mpr fun entry hentry => by simp [(h.going entry hentry).2]

end Parser

/-- How far the lexemes of a source are read before a result: to the end, if there
is a program or if the end is to blame; up to the token that is to blame; or up to
where no lexeme can be read. -/
inductive LexemesRead (source : String) : List Token → Except Error Program → Prop
  | answered {ls : List Token} {program : Program} (hall : lexemes source = .ok ls) :
      LexemesRead source ls (.ok program)
  | failedAtEnd {ls : List Token} {e : ParseError} (hall : lexemes source = .ok ls)
      (hposition : e.position = .past source.toList) (hnames : e.cause.Names none) :
      LexemesRead source ls (.error (.grammar e))
  | failedAt {before : List Token} {t : Token} {e : ParseError}
      (hfirst : (TokenStream.ofText source).answers (.replicate (before.length + 1) .lexeme)
        = (before ++ [t]).map fun t => .ok (some t))
      (hvisible : t.isTrivia = false) (hposition : e.position = t.position)
      (hnames : e.cause.Names (some t.kind)) :
      LexemesRead source (before ++ [t]) (.error (.grammar e))
  | brokenOff {ls : List Token} {e : LexError}
      (hfirst : (TokenStream.ofText source).answers (.replicate (ls.length + 1) .lexeme)
        = ls.map (fun t => .ok (some t)) ++ [.error e]) :
      LexemesRead source ls (.error (.lexical e))

/-- Where a rule has failed at the token that was read ahead last, the lexemes up to
it have been read. -/
theorem Parser.OnRecord.lexemesRead {source : String} {ls : List Token} {e : ParseError}
    {p q : Parser} (h : q.OnRecord source ls) (hmet : e.MetIn source p)
    (hahead : p.lookahead = q.lookahead) : LexemesRead source ls (.error (.grammar e)) := by
  have hnames : e.cause.Names (p.lookahead.map Token.kind) := hmet.reports.names
  cases hlookahead : q.lookahead with
  | none =>
      rw [hlookahead] at hahead
      rw [hahead] at hnames
      have hlexemes : lexemes source = .ok ls := h.passes.lexemesBy_eq (h.ended hlookahead)
      exact .failedAtEnd hlexemes (hmet.position_of_end (.inl hahead)) hnames
  | some t =>
      rw [hlookahead] at hahead
      rw [hahead] at hnames
      obtain ⟨hlast, hvisible⟩ := h.ahead t hlookahead
      obtain ⟨before, rfl⟩ := List.getLast?_eq_some_iff.mp hlast
      have hposition : e.position = t.position := by
        rw [hmet.reports.position, Cursor.position, hahead]
      have hfirst := h.passes.answers
      rw [List.length_append, List.length_singleton] at hfirst
      exact .failedAt hfirst hvisible hposition hnames

/-- The messages of failure that a result calls for. -/
def failureEntries : Except Error Program → List LogEntry
  | .error (.grammar e) => [e.logEntry]
  | .error (.lexical _) => []
  | .ok _ => []

/-- The closing messages that a result calls for. -/
def closingEntries : Except Error Program → List LogEntry
  | .error _ => []
  | .ok program => [program.logEntry]

/-- A log is a record of reading a source as a program. -/
structure RecordOf (source : String) (result : Except Error Program) (log : List LogEntry) :
    Prop where
  /-- One message for each lexeme that has been read, in their order. -/
  traces : ∃ ls, log.filter isTrace = ls.map Token.logEntry ∧ LexemesRead source ls result
  /-- One message for each statement of the program, in the order of the source. -/
  statements : ∀ program, result = .ok program → ∃ ps : List Position,
    log.filter tellsStatement = ps.map Position.logEntry ∧
      ps.length = program.statements.length ∧ ps.Pairwise Position.Before
  /-- One message of failure for an error of the grammar, and it is the last. -/
  failure : log.filter tellsFailure = failureEntries result
  failure_last : ∀ e, result = .error (.grammar e) → log.getLast? = some e.logEntry
  /-- One closing message for a program. -/
  closing : log.filter tellsClosing = closingEntries result

namespace RecordOf

variable {source : String} {p : Parser}

/-- The record of a run that answers. -/
theorem of_answer {program : Program} (h : (p.parse source).1 = .ok program) :
    RecordOf source (.ok program) (p.parse source).2.log := by
  have hrun : Parser.parseWithin maxNesting source p = (.ok program, (p.parse source).2) :=
    Prod.ext h rfl
  obtain ⟨ls, q, hq, hend, hlog⟩ := (p.parse_records source).of_ok hrun
  obtain ⟨hlength, hordered⟩ := Parser.parse_begun h
  have hlexemes : lexemes source = .ok ls := hq.passes.lexemesBy_eq (hq.ended hend)
  refine ⟨⟨ls, ?_, .answered hlexemes⟩, ?_, ?_, by simp, ?_⟩
  · rw [hlog, filter_concat_of_false program.isTrace_logEntry, hq.traces]
  · intro program' hsame
    obtain rfl := Except.ok.inj hsame
    exact ⟨_, Parser.filter_tellsStatement _, hlength, hordered⟩
  · rw [hlog, filter_concat_of_false program.tellsFailure_logEntry, hq.no_failure, failureEntries]
  · rw [hlog, filter_concat_of_true program.tellsClosing_logEntry, hq.no_closing, closingEntries,
      List.nil_append]

/-- The record of a run that fails. -/
theorem of_failure {e : ParseError} (h : (p.parse source).1 = .error (.grammar e)) :
    RecordOf source (.error (.grammar e)) (p.parse source).2.log := by
  have hrun : Parser.parseWithin maxNesting source p = (.error (.grammar e), (p.parse source).2) :=
    Prod.ext h rfl
  obtain ⟨ls, q, hq, hahead, hlog⟩ := (p.parse_records source).of_grammar hrun
  have hmet : e.MetIn source (p.parse source).2 := (p.parse_stops source).of_grammar hrun
  refine ⟨⟨ls, ?_, hq.lexemesRead hmet hahead⟩, nofun, ?_, ?_, ?_⟩
  · rw [hlog, filter_concat_of_false e.isTrace_logEntry, hq.traces]
  · rw [hlog, filter_concat_of_true e.tellsFailure_logEntry, hq.no_failure, failureEntries,
      List.nil_append]
  · intro e' hsame
    obtain rfl := Error.grammar.inj (Except.error.inj hsame)
    rw [hlog]
    exact List.getLast?_concat
  · rw [hlog, filter_concat_of_false e.tellsClosing_logEntry, hq.no_closing, closingEntries]

/-- The record of a run that breaks off. -/
theorem of_break {e : LexError} (h : (p.parse source).1 = .error (.lexical e)) :
    RecordOf source (.error (.lexical e)) (p.parse source).2.log := by
  have hrun : Parser.parseWithin maxNesting source p = (.error (.lexical e), (p.parse source).2) :=
    Prod.ext h rfl
  obtain ⟨ls, hlogs, hscan⟩ := (p.parse_records source).of_lexical hrun
  have hfirst := hlogs.passes.answers_lexemes (.failed hscan) 1
  exact ⟨⟨ls, hlogs.traces, .brokenOff hfirst⟩, by simp, hlogs.no_failure, by simp,
    hlogs.no_closing⟩

end RecordOf

/-- **The log is a record.**  Reading a source as a program reports each lexeme that
is read, in order: all of them if there is a program or if the input ends too early,
those up to the token that is to blame, or those before a lexical error.  If there is
a program, a message has been written for each of its statements at all depths, in
the order of the source.  A failure is reported exactly for an error of the grammar,
once, last, and with its rule and its wording; and the program exactly if there is
one, with the number of its statements at the top. -/
theorem log_faithful (p : Parser) (source : String) :
    RecordOf source (p.parse source).1 (p.parse source).2.log := by
  rcases hresult : (p.parse source).1 with (e | e) | program
  · exact .of_break hresult
  · exact .of_failure hresult
  · exact .of_answer hresult

end TildeLang
