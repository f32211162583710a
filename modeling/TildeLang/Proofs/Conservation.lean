import TildeLang.Proofs.Lossless
import TildeLang.Proofs.NestingLimit

/-!
# No token is lost between the stream and the rules

At every point of a run over a source, the tokens of the source are in three
places: those that rules have used, the one that is read ahead, and those that
the stream still has to give.  Put in a row, they are the tokens of the source,
whatever has happened.  Only a lexical error ends this: the call that meets it
has taken the token read ahead and has none to put in its place.

* `Kept` — what holds of a history and the cursor that it has led to;
* `Parser.Faithful` — it has held at every point so far, and holds now;
* `Parser.Broken` — it held up to the call that met a lexical error, and since
  then levels have been closed and nothing else has been done;
* `keeping` — the steps of the rules keep tokens, and so does every rule made
  of them;
* `tokens_kept` — so does every run over a source, and a run that answers has
  used all tokens.
-/

namespace TildeLang

/-- The token that an event says has been used. -/
def Event.taken? : Event → Option Token
  | took t => some t
  | _ => none

/-- The tokens that have been used in a history, in the order of their use. -/
def used (history : List Moment) : List Token :=
  (history.filterMap fun m => m.event.taken?).reverse

/-- Every token of the source has been used, is read ahead or is still to come.
The stream stands right after the token read ahead and has scanned nothing
beyond; nothing is read ahead only at the end of the source. -/
structure Kept (source : String) (history : List Moment) (c : Cursor) : Prop where
  reaches : (TokenStream.ofText source).Reaches c.stream
  tokens : (TokenStream.ofText source).outlook
    = (used history ++ c.lookahead.toList ++ c.stream.outlook.1, c.stream.outlook.2)
  visible : ∀ t, c.lookahead = some t → t.isTrivia = false
  ahead : ∀ t, c.lookahead = some t → c.stream.offset = t.stop
  scanned : ∀ m ∈ history, ∀ t, m.event = .scanned t → t.stop ≤ c.stream.offset
  ended : c.lookahead = none → c.stream.rest = [] ∧ c.stream.offset = source.utf8ByteSize

namespace Parser

/-- The tokens of a source have been kept at every point of the history, and
are kept now. -/
structure Faithful (source : String) (p : Parser) : Prop where
  always : ∀ m older, m :: older <:+ p.history → Kept source (m :: older) m.cursor
  now : Kept source p.history p.toCursor

/-- The tokens of a source were kept up to the call for the next token that met
a lexical error, and since that call levels have been closed. -/
inductive Broken (source : String) (e : LexError) : Parser → Prop
  /-- The first token of all was called for. -/
  | first {scanned : List Token} {stream : TokenStream} (events : List Event)
      (hevents : ∀ event ∈ events, event = .began source.utf8ByteSize)
      (hnext : (ofText source).stream.nextToken = ⟨scanned, .error e, stream⟩) :
      Broken source e
        (((ofText source).moveTo ⟨stream, none, 0⟩).record (events ++ scanned.map .scanned))
  /-- A token was to be used, and the one after it was called for. -/
  | after {p : Parser} {t : Token} {scanned : List Token} {stream : TokenStream}
      (before : p.Faithful source) (hahead : p.lookahead = some t)
      (hnext : p.stream.nextToken = ⟨scanned, .error e, stream⟩) :
      Broken source e
        ((p.moveTo ⟨stream, none, p.depth⟩).record (.took t :: scanned.map .scanned))
  | leave {p : Parser} (rule : Rule) (h : Broken source e p) : Broken source e (p.leaving rule)

end Parser

/-! ### Asking for the next token -/

namespace TokenStream

variable {s s' next : TokenStream} {t : Token} {scanned : List Token}

/-- Asking for the next token passes the tokens that it says it has scanned. -/
theorem nextToken_passes (s : TokenStream) : s.Passes s.nextToken.scanned s.nextToken.stream := by
  fun_induction nextToken s with
  | case1 s e hs => exact .nil s
  | case2 s hs => exact .nil s
  | case3 s t next hs htrivia ih => exact .cons hs ih
  | case4 s t next hs htrivia => exact .cons hs (.nil next)

/-- The answer is no trivia. -/
theorem nextToken_visible (h : s.nextToken = ⟨scanned, .ok (some t), next⟩) :
    t.isTrivia = false := by
  fun_induction nextToken s generalizing scanned with
  | case1 s e hs => simp at h
  | case2 s hs => simp at h
  | case3 s t' middle hs htrivia ih =>
      obtain ⟨_, hanswer, hstream⟩ := Fetch.mk.inj h
      have hlater : middle.nextToken = ⟨middle.nextToken.scanned, .ok (some t), next⟩ := by
        rw [← hanswer, ← hstream]
      exact ih hlater
  | case4 s t' middle hs htrivia =>
      obtain ⟨_, hanswer, _⟩ := Fetch.mk.inj h
      obtain rfl : t' = t := by simpa using hanswer
      simpa using htrivia

/-- Tokens that are passed stop before the stream that is left. -/
theorem Passes.stop_le (h : s.Passes scanned s') (ht : t ∈ scanned) : t.stop ≤ s'.offset := by
  induction h with
  | nil s => cases ht
  | cons hscan later ih =>
      rcases List.mem_cons.mp ht with rfl | hlater
      · rw [(scan_place hscan).2.1]
        exact later.reaches.offset_le
      · exact ih hlater

/-- A stream that has read its source has nothing more to give. -/
theorem outlook_of_rest_eq_nil (h : s.rest = []) : s.outlook = ([], none) :=
  outlook_of_end (nextToken_of_end (scan_eq_none_iff.mpr h))

end TokenStream

/-! ### Points -/

section Points

variable {source : String} {history : List Moment} {c c' : Cursor} {event : Event}

theorem used_of_taken {t : Token} (h : event.taken? = some t) :
    used (⟨event, c⟩ :: history) = used history ++ [t] := by
  simp [used, h]

theorem used_of_not_taken (h : event.taken? = none) :
    used (⟨event, c⟩ :: history) = used history := by
  simp [used, h]

/-- The event uses no token, and scans none beyond an offset. -/
structure Event.QuietAt (offset : Nat) (event : Event) : Prop where
  taken : event.taken? = none
  scanned : ∀ t, event = .scanned t → t.stop ≤ offset

/-- A quiet event keeps tokens, at whatever depth. -/
theorem Kept.note (h : Kept source history c) (hquiet : event.QuietAt c.stream.offset)
    (hstream : c'.stream = c.stream) (hahead : c'.lookahead = c.lookahead) :
    Kept source (⟨event, c'⟩ :: history) c' where
  reaches := hstream ▸ h.reaches
  tokens := by rw [used_of_not_taken hquiet.taken, hstream, hahead, h.tokens]
  visible := hahead ▸ h.visible
  ahead := by rw [hstream, hahead]; exact h.ahead
  scanned := by
    rw [List.forall_mem_cons, hstream]
    exact ⟨hquiet.scanned, h.scanned⟩
  ended := by rw [hstream, hahead]; exact h.ended

/-- Where all tokens have been used or are still to come, the next one can be
read ahead. -/
theorem Kept.of_nextToken {s stream : TokenStream} {scanned : List Token} {next : Option Token}
    (hreaches : (TokenStream.ofText source).Reaches s)
    (htokens : (TokenStream.ofText source).outlook = (used history ++ s.outlook.1, s.outlook.2))
    (hscanned : ∀ m ∈ history, ∀ t, m.event = .scanned t → t.stop ≤ s.offset)
    (hnext : s.nextToken = ⟨scanned, .ok next, stream⟩) (depth : Nat) :
    Kept source history ⟨stream, next, depth⟩ := by
  have hlater : s.Reaches stream := by simpa [hnext] using s.nextToken_passes.reaches
  have hall := hreaches.trans hlater
  refine ⟨hall, ?_, ?_, ?_, ?_, ?_⟩
  · rw [htokens, List.append_assoc]
    cases next with
    | none =>
        have hend := (TokenStream.nextToken_ends hnext).2
        rw [TokenStream.outlook_of_end hnext, TokenStream.outlook_of_rest_eq_nil hend]
        rfl
    | some t =>
        rw [TokenStream.outlook_of_token hnext]
        rfl
  · rintro t rfl
    exact TokenStream.nextToken_visible hnext
  · rintro t rfl
    obtain ⟨_, _, hscan⟩ := TokenStream.nextToken_reaches hnext
    exact (TokenStream.scan_place hscan).2.1.symm
  · intro m hm t ht
    exact (hscanned m hm t ht).trans hlater.offset_le
  · rintro rfl
    have hend := (TokenStream.nextToken_ends hnext).2
    exact ⟨hend, (hall.locatedIn (.ofText source)).offset_of_end hend⟩

/-- At the end of the input, all tokens have been used. -/
theorem Kept.tokenize_eq (h : Kept source history c) (hend : c.kind? = none) :
    tokenize source = .ok (used history) := by
  have hahead : c.lookahead = none := Option.map_eq_none_iff.mp hend
  have houtlook := TokenStream.outlook_of_rest_eq_nil (h.ended hahead).1
  rw [tokenize_eq_ok_iff, h.tokens, houtlook, hahead]
  simp

end Points

/-! ### Steps -/

namespace Parser

variable {source : String} {p : Parser} {event : Event}

theorem record_cons (p : Parser) (event : Event) (events : List Event) :
    p.record (event :: events) = (p.record [event]).record events := by
  simp [record]

/-- A moment is added at which tokens are kept. -/
theorem Faithful.cons {c : Cursor} (h : p.Faithful source)
    (hkept : Kept source (⟨event, c⟩ :: p.history) c) :
    ((p.moveTo c).record [event]).Faithful source where
  always := by
    intro m older hm
    rcases List.suffix_cons_iff.mp hm with heq | hlater
    · obtain ⟨rfl, rfl⟩ := List.cons.inj heq
      exact hkept
    · exact h.always m older hlater
  now := hkept

/-- Quiet events keep tokens. -/
theorem Faithful.record (h : p.Faithful source) {events : List Event}
    (hquiet : ∀ event ∈ events, event.QuietAt p.stream.offset) :
    (p.record events).Faithful source := by
  induction events generalizing p with
  | nil => exact h
  | cons event events ih =>
      rw [List.forall_mem_cons] at hquiet
      rw [record_cons]
      exact ih (h.cons (h.now.note hquiet.1 rfl rfl)) hquiet.2

/-- So does opening a level, and closing one. -/
theorem Faithful.entering (h : p.Faithful source) (rule : Rule) :
    (p.entering rule).Faithful source :=
  h.cons (h.now.note ⟨rfl, by simp⟩ rfl rfl)

theorem Faithful.leaving (h : p.Faithful source) (rule : Rule) :
    (p.leaving rule).Faithful source :=
  h.cons (h.now.note ⟨rfl, by simp⟩ rfl rfl)

/-- The tokens that asking for the next one scans are not beyond the stream
that is left. -/
theorem quiet_scanned {s stream : TokenStream} {scanned : List Token}
    {answer : Except LexError (Option Token)} (hnext : s.nextToken = ⟨scanned, answer, stream⟩) :
    ∀ event ∈ scanned.map Event.scanned, event.QuietAt stream.offset := by
  have hpasses : s.Passes scanned stream := by simpa [hnext] using s.nextToken_passes
  intro event hevent
  obtain ⟨t, ht, rfl⟩ := List.mem_map.mp hevent
  refine ⟨rfl, ?_⟩
  rintro u ⟨⟩
  exact hpasses.stop_le ht

/-- **Using a token** keeps tokens: what was read ahead has been used, and the
next token is read ahead. -/
theorem Faithful.take {t : Token} {scanned : List Token} {next : Option Token}
    {stream : TokenStream} (h : p.Faithful source) (hahead : p.lookahead = some t)
    (hnext : p.stream.nextToken = ⟨scanned, .ok next, stream⟩) :
    ((p.moveTo ⟨stream, next, p.depth⟩).record (.took t :: scanned.map .scanned)).Faithful
      source := by
  let c : Cursor := ⟨stream, next, p.depth⟩
  have hused : used (⟨.took t, c⟩ :: p.history) = used p.history ++ [t] := used_of_taken rfl
  have hkept : Kept source (⟨.took t, c⟩ :: p.history) c := by
    refine .of_nextToken h.now.reaches ?_ ?_ hnext p.depth
    · rw [hused, h.now.tokens, hahead]
      rfl
    · exact List.forall_mem_cons.mpr ⟨by simp, h.now.scanned⟩
  rw [record_cons]
  exact (h.cons hkept).record (quiet_scanned hnext)

end Parser

/-! ### Rules -/

/-- The outcome that claims that the tokens of a source are kept, up to a
lexical error. -/
def Outcome.keeping (α : Type) (source : String) : Outcome α where
  answers _ p := p.Faithful source
  fails _ p := p.Faithful source
  breaks e p := p.Broken source e

namespace Parse

variable {α : Type} {source : String} {p : Parser}

theorem fail_keeps (h : p.Faithful source) (rule : Rule) (cause : Cursor → ParseCause) :
    (fail rule cause : Parse α).Leads p (.keeping α source) :=
  h.record (List.forall_mem_singleton.mpr ⟨rfl, by simp⟩)

theorem tooDeep_keeps (h : p.Faithful source) (rule : Rule) :
    (tooDeep rule : Parse α).Leads p (.keeping α source) :=
  fail_keeps h rule _

/-- **One step.**  Trying to use a token keeps tokens. -/
theorem eat_keeps (h : p.Faithful source) (kind : Kind) (rule : Rule) :
    (eat kind rule).Leads p (.keeping Token source) := by
  by_cases hkind : p.kind? = some kind
  · obtain ⟨t, hahead, rfl⟩ := Option.map_eq_some_iff.mp hkind
    unfold Leads
    rcases hnext : p.stream.nextToken with ⟨scanned, answer, stream⟩
    cases answer with
    | ok next =>
        rw [eat_of_ok hahead hnext]
        exact h.take hahead hnext
    | error e =>
        rw [eat_of_error hahead hnext]
        exact .after h hahead hnext
  · exact .congr (eat_of_kind?_ne hkind rule) (fail_keeps h rule _)

/-- Keeping the tokens of a source is a comparison. -/
def keeping (source : String) : Comparison where
  Holds p _ rule' := p.Faithful source → rule'.Leads p (.keeping _ source)
  congr h _ hrule' hp := (h hp).congr hrule'
  pure _ _ hp := hp
  note _ hp := hp.record (List.forall_mem_singleton.mpr ⟨rfl, by simp⟩)
  eat _ kind rule hp := eat_keeps hp kind rule
  fail _ rule cause _ hp := fail_keeps hp rule cause
  bind hrule hnext hp := by
    refine leads_bind.mpr (.intro ?_ ?_ ?_)
    · exact fun a p' hrun => hnext a p' hrun ((hrule hp).of_ok hrun)
    · exact fun e p' hrun => (hrule hp).of_grammar hrun
    · exact fun e p' hrun => (hrule hp).of_lexical hrun

/-- What is done inside a level keeps tokens, and so does the level. -/
theorem keeping_within {rule : Rule} {body : Parse α}
    (h : (p.entering rule).Faithful source →
      body.Leads (p.entering rule) (.keeping α source))
    (hp : p.Faithful source) : (within rule body).Leads p (.keeping α source) := by
  refine leads_within.mpr ((h (hp.entering rule)).imp ?_ ?_ ?_)
  · exact fun _ _ hq => hq.leaving rule
  · exact fun _ _ hq => hq.leaving rule
  · exact fun _ _ hq => hq.leave rule

theorem assignment_keeps (n : Nat) (h : p.Faithful source) :
    (assignment n).Leads p (.keeping Expr source) :=
  compare_assignment (k := 0) (fun _ => keeping source) (fun _ _ _ _ _ => keeping_within)
    (fun _ hp => tooDeep_keeps hp .assignmentExpression) n p h

theorem statement_keeps (n : Nat) (h : p.Faithful source) :
    (statement n).Leads p (.keeping Stmt source) :=
  compare_statement (k := 0) (fun _ => keeping source) (fun _ _ _ _ _ => keeping_within)
    (fun _ hp => tooDeep_keeps hp .assignmentExpression)
    (fun q => (keeping source).bind ((keeping source).note q) fun _ _ _ hq =>
      tooDeep_keeps hq .statement) n p h

/-- **Programs** keep tokens. -/
theorem program_keeps (n : Nat) (h : p.Faithful source) :
    (program n).Leads p (.keeping Program source) :=
  (keeping source).program (.limited n) (fun _ _ hq => statement_keeps n hq) h

/-- **Single expressions** do too. -/
theorem soleExpression_keeps (n : Nat) (h : p.Faithful source) :
    (soleExpression n).Leads p (.keeping Expr source) :=
  (keeping source).soleExpression (.limited n) (assignment_keeps n) h

end Parse

/-! ### Runs -/

/-- A run over a source keeps its tokens up to a lexical error, and if it
answers it has used them all. -/
structure KeepsTokens {α : Type} (source : String) (run : Except Error α × Parser) : Prop where
  answered : ∀ a, run.1 = .ok a →
    run.2.Faithful source ∧ tokenize source = .ok (used run.2.history)
  failed : ∀ e, run.1 = .error (.grammar e) → run.2.Faithful source
  broken : ∀ e, run.1 = .error (.lexical e) → run.2.Broken source e

section Runs

open Parse

variable {α : Type} {source : String} {rule : Parse α} {p : Parser}

/-- A rule that keeps tokens, and answers only at the end of the input, uses
them all. -/
theorem KeepsTokens.of_leads (hkeeps : rule.Leads p (.keeping α source))
    (hexhausts : rule.Leads p (.answering fun _ p' => p'.kind? = none)) :
    KeepsTokens source (rule p) where
  answered a hanswer := by
    have hrun : rule p = (.ok a, (rule p).2) := Prod.ext hanswer rfl
    have hfaithful : (rule p).2.Faithful source := hkeeps.of_ok hrun
    exact ⟨hfaithful, hfaithful.now.tokenize_eq (hexhausts.of_ok hrun)⟩
  failed e hanswer := hkeeps.of_grammar (Prod.ext hanswer rfl)
  broken e hanswer := hkeeps.of_lexical (Prod.ext hanswer rfl)

/-- Putting a parser at the front of a source keeps its tokens. -/
theorem Parser.restart_keeps (p : Parser) {events : List Event}
    (hevents : ∀ event ∈ events, event = .began source.utf8ByteSize) :
    (restart source events).Leads p (.keeping Unit source) := by
  unfold Leads restart fetch
  rw [reset_eq]
  rcases hnext : (ofText source).stream.nextToken with ⟨scanned, answer, stream⟩
  cases answer with
  | error e => exact .first events hevents hnext
  | ok next =>
      have hkept : Kept source [] ⟨stream, next, 0⟩ :=
        .of_nextToken (.refl _) rfl (by simp) hnext 0
      have hfront : ((ofText source).moveTo ⟨stream, next, 0⟩).Faithful source :=
        ⟨fun m older hm => by simp [ofText, moveTo] at hm, hkept⟩
      refine hfront.record (List.forall_mem_append.mpr ⟨?_, quiet_scanned hnext⟩)
      intro event hevent
      rw [hevents event hevent]
      exact ⟨rfl, by simp⟩

/-- **From the front of a source** to the end of a rule that is run there. -/
theorem Parser.restart_keepsTokens (p : Parser) {events : List Event}
    (hevents : ∀ event ∈ events, event = .began source.utf8ByteSize)
    (hkeeps : ∀ q, q.Faithful source → rule.Leads q (.keeping α source))
    (hexhausts : ∀ q, rule.Leads q (.answering fun _ q' => q'.kind? = none)) :
    KeepsTokens source ((restart source events >>= fun _ => rule) p) := by
  have hrestart := p.restart_keeps hevents
  refine .of_leads (leads_bind.mpr (hrestart.imp ?_ (fun _ _ h => h) fun _ _ h => h)) ?_
  · exact fun _ q hq => hkeeps q hq
  · exact answering_bind fun _ q _ => hexhausts q

end Runs

namespace Parser

open Parse

theorem parse_keepsTokens (p : Parser) (source : String) : KeepsTokens source (p.parse source) := by
  refine p.restart_keepsTokens (List.forall_mem_singleton.mpr rfl) ?_ ?_
  · intro q hq
    refine leads_bind.mpr ((program_keeps maxNesting hq).imp ?_ (fun _ _ h => h) fun _ _ h => h)
    -- Noting that the program is finished is a quiet event.
    exact fun _ q' hq' => hq'.record (List.forall_mem_singleton.mpr ⟨rfl, by simp⟩)
  · intro q
    refine leads_bind.mpr ((program_exhausts maxNesting q).imp ?_ (fun _ _ h => h) fun _ _ h => h)
    exact fun _ _ hend => hend

theorem parseExpression_keepsTokens (p : Parser) (source : String) :
    KeepsTokens source (p.parseExpression source) :=
  p.restart_keepsTokens (by simp) (fun _ => soleExpression_keeps maxNesting)
    (soleExpression_exhausts maxNesting)

end Parser

/-! ### Using a token -/

/-- Trying to use a token of some kind uses the one read ahead, or fails on a
token of another kind and leaves everything where it was. -/
structure Parser.UsesOrStays (p : Parser) (kind : Kind) (rule : Rule) : Prop where
  answered : ∀ t p', Parse.eat kind rule p = (.ok t, p') →
    p.lookahead = some t ∧ t.kind = kind ∧ used p'.history = used p.history ++ [t]
  mismatched : (∃ e p', Parse.eat kind rule p = (.error (.grammar e), p')) ↔ p.kind? ≠ some kind
  unchanged : ∀ e p', Parse.eat kind rule p = (.error (.grammar e), p') →
    p'.toCursor = p.toCursor ∧ used p'.history = used p.history

/-- What events add to the tokens that have been used. -/
theorem Parser.used_record (p : Parser) (events : List Event) :
    used (p.record events).history = used p.history ++ events.filterMap Event.taken? := by
  simp [used, record, List.filterMap_map]

theorem Parser.usesOrStays (p : Parser) (kind : Kind) (rule : Rule) : p.UsesOrStays kind rule := by
  by_cases hkind : p.kind? = some kind
  · obtain ⟨t, hahead, rfl⟩ := Option.map_eq_some_iff.mp hkind
    rcases hnext : p.stream.nextToken with ⟨scanned, answer, stream⟩
    cases answer with
    | error e =>
        have heat := Parse.eat_of_error hahead hnext rule
        exact ⟨by simp [heat], by simp [heat, hkind], by simp [heat]⟩
    | ok next =>
        have heat := Parse.eat_of_ok hahead hnext rule
        refine ⟨?_, by simp [heat, hkind], by simp [heat]⟩
        intro u p' hrun
        obtain ⟨hsame, rfl⟩ := Prod.mk.inj (heat.symm.trans hrun)
        obtain rfl : t = u := by simpa using hsame
        have hscanned : (scanned.map Event.scanned).filterMap Event.taken? = [] := by
          simp [List.filterMap_eq_nil_iff, Event.taken?]
        refine ⟨hahead, rfl, ?_⟩
        rw [used_record, List.filterMap_cons_some (show (Event.took t).taken? = some t from rfl),
          hscanned]
        rfl
  · have heat := Parse.eat_of_kind?_ne hkind rule
    refine ⟨by simp [heat, Parse.fail], ⟨fun _ => hkind, fun _ => ⟨_, _, heat⟩⟩, ?_⟩
    intro e p' hrun
    obtain ⟨_, rfl⟩ := Prod.mk.inj (heat.symm.trans hrun)
    refine ⟨rfl, ?_⟩
    rw [used_record]
    simp [Event.taken?]

/-- **No token is lost, used twice or moved.**  In every run over a source, as a
program or as a single expression, with a parser that may have been used
before, the tokens are kept at every point up to a lexical error; a run that
answers has used each of them once, in their order.  A token that is not of the
kind that is tried stays where it is, and so does everything else. -/
theorem tokens_kept :
    (∀ (p : Parser) (source : String), KeepsTokens source (p.parse source)) ∧
    (∀ (p : Parser) (source : String), KeepsTokens source (p.parseExpression source)) ∧
    (∀ (p : Parser) (kind : Kind) (rule : Rule), p.UsesOrStays kind rule) :=
  ⟨Parser.parse_keepsTokens, Parser.parseExpression_keepsTokens, Parser.usesOrStays⟩

/-- The first source is broken off at its last character, after its second
token; the second is refused there; the third is read to its end. -/
theorem tokens_kept_tilde :
    (Parser.unset.parse "let aa ~").2.Broken "let aa ~"
      ⟨.unexpectedCharacter '~', 7, ⟨1, 8⟩⟩ ∧
    (Parser.unset.parse "let (~").2.Faithful "let (~" ∧
    tokenize "let aa = 1" = .ok (used (Parser.unset.parse "let aa = 1").2.history) ∧
    (Parse.eat .comma .identifier (Parser.unset.parse "let (~").2).2.toCursor
      = (Parser.unset.parse "let (~").2.toCursor := by
  obtain ⟨hprogram, _, huses⟩ := tokens_kept
  have hfailed : parse "let (~" = .error (.grammar
      ⟨.identifier, .unexpectedToken .identifier (some .leftParen), ⟨1, 5⟩⟩) := by cbv
  have hanswered : parse "let aa = 1"
      = .ok ⟨[.declare .letBinding [⟨"aa", some (.literal (.number 1))⟩]]⟩ := by cbv
  refine ⟨(hprogram _ _).broken _ ?_, (hprogram _ _).failed _ hfailed,
    ((hprogram _ _).answered _ hanswered).2, ?_⟩
  · change parse "let aa ~" = _
    cbv
  · have hkind : (Parser.unset.parse "let (~").2.kind? ≠ some .comma := by
      decide +kernel
    obtain ⟨e, p', heat⟩ := (huses _ _ .identifier).mismatched.mpr hkind
    rw [heat]
    exact ((huses _ _ _).unchanged e p' heat).1

end TildeLang
