import Mathlib
import TildeLang.Proofs.Location
import TildeLang.Proofs.Limit
import TildeLang.Proofs.Recognition
import TildeLang.Proofs.Sentences

/-!
# The first offence

Where a source breaks the grammar, the error is at the first token that cannot
continue what stands before it.

What a rule has used when it fails is the beginning of a phrase, since the
rule reads phrases.  Suppose that it could still be continued by the token
read ahead.  Then some phrase begins with all of these tokens; the rule would
follow that phrase past the token, and not fail in front of it.  The phrase
may have more levels than the rule may open, but a failure that is not due to
the limit is the same with any greater limit.

* `FirstOffence` — what an error says about its source;
* `Serves.firstOffence` — the errors of a rule that reads phrases and follows
  them;
* `grammar_error_firstOffence` — the errors of the parser.
-/

namespace TildeLang

open Grammar

/-- An error tells of the first token of a source that cannot continue a
sentence.  If there is none, the source ends where no sentence ends, and the
error tells of the end of the input. -/
def FirstOffence {α : Type} (phrases : Nat → Phrases α) (source : String) (e : ParseError) :
    Prop :=
  ∃ before, BeginsSentence phrases (before.map Token.kind) ∧
    ((∃ t after fault,
        (TokenStream.ofText source).outlook = (before ++ t :: after, fault) ∧
        ¬BeginsSentence phrases ((before ++ [t]).map Token.kind) ∧
        e.position = t.position ∧ e.cause.Names (some t.kind)) ∨
      ((TokenStream.ofText source).outlook = (before, none) ∧
        ¬IsSentence phrases (before.map Token.kind) ∧
        e.position = Position.start.advance source.toList ∧ e.cause.Names none))

/-- The cursor is somewhere in a source, and at its end if no token is read
ahead. -/
structure Cursor.Within (source : List Char) (c : Cursor) : Prop where
  located : c.stream.LocatedIn source
  ended : c.lookahead = none → c.stream.rest = []

namespace Cursor.Within

variable {source : List Char}

/-- A cursor that has just fetched an answer from a stream in the source. -/
theorem fetched {s next : TokenStream} {scanned : List Token} {answer : Option Token}
    (hs : s.LocatedIn source) (hnext : s.nextToken = ⟨scanned, .ok answer, next⟩)
    (depth : Nat) : (Cursor.mk next answer depth).Within source := by
  cases answer with
  | none =>
      obtain ⟨hreaches, hend⟩ := TokenStream.nextToken_ends hnext
      exact ⟨hreaches.locatedIn hs, fun _ => hend⟩
  | some t =>
      obtain ⟨s', hreaches, hscan⟩ := TokenStream.nextToken_reaches hnext
      exact ⟨(hreaches.locatedIn hs).scan hscan, nofun⟩

/-- At the end of the input, the position is that after the last character. -/
theorem position_of_end {c : Cursor} (h : c.Within source) (hahead : c.lookahead = none) :
    c.position = Position.start.advance source := by
  rw [Cursor.position, hahead]
  exact h.located.position_of_end (h.ended hahead)

end Cursor.Within

theorem Parser.AtFront.within {source : String} {p : Parser} (h : p.AtFront source) :
    p.Within source.toList := by
  obtain ⟨scanned, hnext⟩ := h
  exact .fetched (.ofText source) hnext p.depth

/-- A trace stays within the source. -/
theorem Reads.within {source : List Char} {p q : Parser} {ts : List Token}
    (h : Reads p ts q) (hp : p.Within source) : q.Within source := by
  induction h with
  | stay p => exact hp
  | note p event => exact hp
  | @take p t scanned next stream hahead hnext => exact .fetched hp.located hnext p.depth
  | nest rule inside ih =>
      have hq := ih ⟨hp.located, hp.ended⟩
      exact ⟨hq.located, hq.ended⟩
  | append first second ih₁ ih₂ => exact ih₂ (ih₁ hp)

namespace Parse

variable {α : Type}

/-- The rules of a family, one for each number of levels, read phrases and
follow them; more levels change only runs that reach the limit. -/
structure Serves (rule : Nat → Parse α) (phrases : Nat → Phrases α) : Prop where
  reads : ∀ n p, (rule n).Leads p (.reading p n phrases)
  follows : ∀ n p ts a horizon, phrases n ts a → p.Shows horizon ts →
    (rule n).Leads p (.following horizon a [])
  bounds : ∀ n m, n ≤ m → Bounds (rule n) (rule m)
  mono : ∀ n m ts a, n ≤ m → phrases n ts a → phrases m ts a
  recast : ∀ n, Recastable (phrases n)

namespace Serves

variable {rule : Nat → Parse α} {phrases : Nat → Phrases α} {n : Nat} {p p' : Parser}
  {e : ParseError} {ts : List Token}

/-- **No failure in sight of a phrase.**  Where the tokens to come are those of
a phrase, as far as one can see, a rule fails only beyond the horizon or for
the limit. -/
theorem beyond_of_grammar (h : Serves rule phrases) (hrun : rule n p = (.error (.grammar e), p'))
    (hcause : e.cause.isNesting = false) {m : Nat} {a : α} (hphrase : phrases m ts a)
    {horizon : Option Nat} (hshows : p.Shows horizon ts) : p'.Beyond horizon := by
  have hrun' := (h.bounds n (max n m) (by omega)).eq_of_grammar hrun hcause
  have hphrase' := h.mono m (max n m) ts a (by omega) hphrase
  exact (h.follows (max n m) p ts a horizon hphrase' hshows).of_grammar hrun'

/-- Tokens that a rule has used without reaching the end are not continued by
the token at which it fails. -/
theorem not_beginsSentence (h : Serves rule phrases)
    (hrun : rule n p = (.error (.grammar e), p')) (hcause : e.cause.isNesting = false)
    {t : Token} {after : List Token} (hcoming : p.upcoming = ts ++ t :: after)
    (hleft : p'.upcoming = t :: after) :
    ¬BeginsSentence phrases ((ts ++ [t]).map Token.kind) := by
  intro hbegins
  have hcoming' : p.upcoming = ts ++ [t] ++ after := by simp [hcoming]
  obtain ⟨m, more, a, hphrase⟩ := hbegins.exists_phrase h.recast
  -- The token itself is in sight, but nothing after it.
  have hshows : p.Shows (some after.length) (ts ++ [t] ++ more) :=
    ⟨ts ++ [t], after, more, by simp, rfl, hcoming', rfl⟩
  obtain ⟨k, hk, hlength⟩ := h.beyond_of_grammar hrun hcause hphrase hshows
  obtain rfl := Option.some.inj hk
  rw [hleft, List.length_cons] at hlength
  omega

/-- A rule does not fail at the end of a sentence. -/
theorem not_isSentence (h : Serves rule phrases)
    (hrun : rule n p = (.error (.grammar e), p')) (hcause : e.cause.isNesting = false)
    (hcoming : p.upcoming = ts) (hfault : p.fault? = none) :
    ¬IsSentence phrases (ts.map Token.kind) := by
  intro hsentence
  obtain ⟨m, a, hphrase⟩ := hsentence.exists_phrase h.recast
  have hshows : p.Shows none ts := ⟨hcoming, hfault⟩
  obtain ⟨_, hnone, _⟩ := h.beyond_of_grammar hrun hcause hphrase hshows
  cases hnone

/-- **The first offence of a rule.**  A rule that fails at the front of a
source, other than for the limit, tells of the first offence. -/
theorem firstOffence (h : Serves rule phrases) {source : String} (hfront : p.AtFront source)
    (hrun : rule n p = (.error (.grammar e), p')) (hcause : e.cause.isNesting = false) :
    FirstOffence phrases source e := by
  obtain ⟨ts, hreads, hnesting | ⟨hreports, hviable⟩⟩ := (h.reads n p).of_grammar hrun
  · simp [hcause] at hnesting
  have hbegins : BeginsSentence phrases (ts.map Token.kind) := by
    obtain ⟨m, more, a, _, hphrase⟩ := hviable
    exact ⟨more.map Token.kind, m, ts ++ more, a, hphrase, List.map_append⟩
  refine ⟨ts, hbegins, ?_⟩
  cases hahead : p'.lookahead with
  | some t =>
      have hleft := Cursor.upcoming_of_lookahead hahead
      have hcoming := hreads.upcoming.trans (congrArg _ hleft)
      refine Or.inl ⟨t, p'.stream.outlook.1, p.fault?, ?_,
        h.not_beginsSentence hrun hcause hcoming hleft, ?_, ?_⟩
      · rw [← hfront.outlook, hcoming]
      · rw [hreports.position, Cursor.position, hahead]
      · simpa [Cursor.kind?, hahead] using hreports.names
  | none =>
      have hkind : p'.kind? = none := by simp [Cursor.kind?, hahead]
      obtain ⟨hcoming, hfault⟩ := hreads.exhausted hkind
      refine Or.inr ⟨?_, h.not_isSentence hrun hcause hcoming hfault, ?_, hkind ▸ hreports.names⟩
      · rw [← hfront.outlook, hcoming, hfault]
      · rw [hreports.position]
        exact (hreads.within hfront.within).position_of_end hahead

/-- So it is when the rule is run on a source. -/
theorem restart_firstOffence (h : Serves rule phrases) {source : String} {events : List Event}
    (hrun : ((Parser.restart source events >>= fun _ => rule n) p).1 = .error (.grammar e))
    (hcause : e.cause.isNesting = false) : FirstOffence phrases source e := by
  have hleads : (Parser.restart source events >>= fun _ => rule n).Leads p
      ⟨fun _ _ => True,
        fun e _ => e.cause.isNesting = false → FirstOffence phrases source e,
        fun _ _ => True⟩ := by
    rw [leads_bind]
    refine Parser.leads_restart ?_ fun _ _ _ => trivial
    intro p₁ hfront
    refine .intro (fun _ _ _ => trivial) ?_ (fun _ _ _ => trivial)
    intro e p₂ hfails hcause
    exact h.firstOffence hfront hfails hcause
  exact hleads.of_grammar (Prod.ext hrun rfl) hcause

end Serves

theorem program_serves : Serves program Grammar.Program where
  reads := program_reads
  follows n p ts a _ := program_follows n p ts a
  bounds _ _ := program_bounds
  mono _ _ _ _ hle h := Sequence.mono (fun _ _ => Statement.mono hle) h
  recast := Program.recast

theorem soleExpression_serves : Serves soleExpression Assignment where
  reads := soleExpression_reads
  follows n p ts a _ := soleExpression_follows n p ts a
  bounds _ _ := soleExpression_bounds
  mono _ _ _ _ hle := Assignment.mono hle
  recast := Assignment.recast

end Parse

/-- **First offence.**  A source that breaks the grammar, other than by too
many levels, is reported at the first token that cannot continue a sentence,
or at the end of the input if no token is to blame; and so it is with single
expressions. -/
theorem grammar_error_firstOffence (source : String) (e : ParseError)
    (hcause : e.cause.isNesting = false) :
    (parse source = .error (.grammar e) → FirstOffence Grammar.Program source e) ∧
    (parseExpression source = .error (.grammar e) → FirstOffence Assignment source e) := by
  constructor
  · intro h
    rw [parse_eq] at h
    exact Parse.program_serves.restart_firstOffence h hcause
  · intro h
    rw [parseExpression_eq] at h
    exact Parse.soleExpression_serves.restart_firstOffence h hcause

/-- The parenthesis in the second line cannot continue the sum, whatever comes
after it; the second source ends where an operand has to follow. -/
theorem grammar_error_firstOffence_operand :
    (∃ e : ParseError, parse "aa = bb +\n  ) ~" = .error (.grammar e) ∧
      e.position = ⟨2, 3⟩ ∧ FirstOffence Grammar.Program "aa = bb +\n  ) ~" e) ∧
    (∃ e : ParseError, parseExpression "(aa) *\n" = .error (.grammar e) ∧
      e.position = ⟨2, 1⟩ ∧ FirstOffence Assignment "(aa) *\n" e) := by
  have hmiddle : parse "aa = bb +\n  ) ~" = .error (.grammar
      ⟨.primaryExpression, .unexpectedPrimary (some .rightParen), ⟨2, 3⟩⟩) := by cbv
  have hend : parseExpression "(aa) *\n" = .error (.grammar
      ⟨.primaryExpression, .unexpectedPrimary none, ⟨2, 1⟩⟩) := by cbv
  exact ⟨⟨_, hmiddle, rfl, (grammar_error_firstOffence _ _ rfl).1 hmiddle⟩,
    ⟨_, hend, rfl, (grammar_error_firstOffence _ _ rfl).2 hend⟩⟩

end TildeLang
