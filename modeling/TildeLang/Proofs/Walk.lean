import Mathlib
import TildeLang.Proofs.Calls

/-!
# Walking along the lexemes

Asking a stream for lexemes alone gives one list of them, and then the end of
the source or a lexical error for ever.  Whatever calls are mixed, they walk
along that list.  A call for a lexeme takes the next one; a call for a token
leaves out the trivia before the next token and takes that; a call that finds
nothing more to take has come to the end or to the error, and there the stream
stays.

* `Passes.ask` — one call takes its lexeme from those that are left;
* `Passes.answers_eq_walk` — so do any number of calls, one after another;
* `given_walk_sublist`, `filter_given_walk_prefix` — nothing is taken twice, and
  nothing but trivia is left out;
* `Halts.answers`, `Halts.afterCalls` — a stream that has stopped does not move;
* `Passes.outlook` — the tokens of a stream are its lexemes without the trivia;
* `calls_walk` — all of this, for the calls from the front of a source.
-/

namespace TildeLang

/-- The answer to a call: a token, the end of the source, or an error. -/
abbrev Answer : Type := Except LexError (Option Token)

/-- The lexemes from the one that a call takes, where some are left.  A call for
a token leaves out the trivia before it. -/
def Call.reached : Call → List Token → List Token
  | .lexeme, left => left
  | .token, left => left.dropWhile Token.isTrivia

/-- The answer to a call where some lexemes are left, and `stop` after them. -/
def Call.answer (call : Call) (stop : Answer) (left : List Token) : Answer :=
  match call.reached left with
  | [] => stop
  | t :: _ => .ok (some t)

/-- The answers to calls one after another, where some lexemes are left, and
`stop` after them. -/
def walk (stop : Answer) : List Token → List Call → List Answer
  | _, [] => []
  | left, call :: later => call.answer stop left :: walk stop (call.reached left).tail later

/-- The tokens among some answers. -/
def given (answers : List Answer) : List Token :=
  answers.filterMap fun
    | .ok found => found
    | .error _ => none

/-- Whether a token is no trivia. -/
def Token.isVisible (t : Token) : Bool := !t.isTrivia

/-! ### What a walk takes -/

theorem Call.reached_sublist (call : Call) (left : List Token) :
    (call.reached left).Sublist left := by
  cases call with
  | lexeme => exact List.Sublist.refl left
  | token => exact List.dropWhile_sublist _

/-- What a call leaves out is trivia. -/
theorem Call.filter_reached (call : Call) (left : List Token) :
    (call.reached left).filter Token.isVisible = left.filter Token.isVisible := by
  cases call with
  | lexeme => rfl
  | token =>
      induction left with
      | nil => rfl
      | cons t left ih =>
          by_cases htrivia : t.isTrivia = true
          · simpa [reached, Token.isVisible, htrivia] using ih
          · simp [reached, htrivia]

section Walk

variable {stop : Answer}

theorem given_cons_stop (hstop : ∀ t, stop ≠ .ok (some t)) (answers : List Answer) :
    given (stop :: answers) = given answers := by
  rcases stop with e | _ | t
  · rfl
  · rfl
  · exact absurd rfl (hstop t)

theorem given_cons_token (t : Token) (answers : List Answer) :
    given (.ok (some t) :: answers) = t :: given answers := rfl

/-- **Nothing is taken twice.**  The tokens that are given come one after another
among the lexemes. -/
theorem given_walk_sublist (hstop : ∀ t, stop ≠ .ok (some t)) (left : List Token)
    (calls : List Call) : (given (walk stop left calls)).Sublist left := by
  induction calls generalizing left with
  | nil => exact List.nil_sublist left
  | cons call later ih =>
      have hreached := call.reached_sublist left
      cases hcall : call.reached left with
      | nil =>
          have hlater := ih []
          simp only [walk, Call.answer, hcall, given_cons_stop hstop, List.tail_nil]
          exact hlater.trans (List.nil_sublist left)
      | cons t more =>
          rw [hcall] at hreached
          simp only [walk, Call.answer, hcall, given_cons_token, List.tail_cons]
          exact ((ih more).cons_cons t).trans hreached

/-- **Only trivia are left out.**  The tokens that are given, without trivia, are
the first lexemes, without trivia. -/
theorem filter_given_walk_prefix (hstop : ∀ t, stop ≠ .ok (some t)) (left : List Token)
    (calls : List Call) :
    (given (walk stop left calls)).filter Token.isVisible
      <+: left.filter Token.isVisible := by
  induction calls generalizing left with
  | nil => exact List.nil_prefix
  | cons call later ih =>
      rw [← call.filter_reached left]
      cases hcall : call.reached left with
      | nil =>
          simp only [walk, Call.answer, hcall, given_cons_stop hstop, List.tail_nil]
          exact ih []
      | cons t more =>
          simp only [walk, Call.answer, hcall, given_cons_token, List.tail_cons]
          by_cases hvisible : t.isVisible = true
          · rw [List.filter_cons_of_pos hvisible, List.filter_cons_of_pos hvisible]
            exact (List.prefix_cons_inj t).mpr (ih more)
          · rw [List.filter_cons_of_neg hvisible, List.filter_cons_of_neg hvisible]
            exact ih more

end Walk

namespace TokenStream

variable {s final : TokenStream} {stop : Answer} {ls : List Token}

/-! ### Where a stream stops -/

/-- The stream stands at the end of its source, or at a lexical error, and has
that to answer. -/
inductive Halts (s : TokenStream) : Answer → Prop
  | ended (h : s.scan tokenTable = .ok none) : Halts s (.ok none)
  | failed {e : LexError} (h : s.scan tokenTable = .error e) : Halts s (.error e)

namespace Halts

theorem ne_token (h : s.Halts stop) (t : Token) : stop ≠ .ok (some t) := by
  cases h <;> simp

/-- A call to a stream that has stopped changes nothing. -/
theorem ask (h : s.Halts stop) (call : Call) : s.ask call = ⟨[], stop, s⟩ := by
  cases h with
  | ended h =>
      cases call with
      | lexeme => exact nextLexeme_of_end h
      | token => exact nextToken_of_end h
  | failed h =>
      cases call with
      | lexeme => exact nextLexeme_of_error h
      | token => exact nextToken_of_error h

/-- **The end is final**, and so is an error: all calls have the same answer. -/
theorem answers (h : s.Halts stop) (calls : List Call) :
    s.answers calls = List.replicate calls.length stop := by
  induction calls with
  | nil => rfl
  | cons call later ih =>
      rw [TokenStream.answers, h.ask call, ih, List.length_cons, List.replicate_succ]

theorem afterCalls (h : s.Halts stop) (calls : List Call) : s.afterCalls calls = s := by
  induction calls with
  | nil => rfl
  | cons call later ih =>
      rw [TokenStream.afterCalls, List.foldl_cons, h.ask call]
      exact ih

/-- A lexical error tells where the stream has stopped. -/
theorem error_place {e : LexError} (h : s.Halts (.error e)) :
    s.offset = e.offset ∧ s.position = e.position := by
  cases h with
  | failed h =>
      obtain ⟨hoffset, hposition⟩ := scan_error_place h
      exact ⟨hoffset.symm, hposition.symm⟩

end Halts

/-- A call that gives no token has come to where the stream stops. -/
theorem ask_halts {call : Call} (h : ∀ t, (s.ask call).answer ≠ .ok (some t)) :
    (s.ask call).stream.Halts (s.ask call).answer := by
  rcases hanswer : (s.ask call).answer with e | _ | t
  · exact .failed (ask_error hanswer).2
  · exact .ended (scan_eq_none_iff.mpr (ask_end hanswer).2)
  · exact absurd hanswer (h t)

/-! ### Calls walk along the lexemes -/

/-- **One call.**  From a stream with some lexemes left, a call gives the one that
it reaches, and the others are left. -/
theorem Passes.ask (h : s.Passes ls final) (hstop : final.Halts stop) (call : Call) :
    (s.ask call).answer = call.answer stop ls ∧
      (s.ask call).stream.Passes (call.reached ls).tail final := by
  cases call with
  | lexeme =>
      cases h with
      | nil =>
          rw [hstop.ask .lexeme]
          exact ⟨rfl, .nil _⟩
      | cons hscan later =>
          rw [TokenStream.ask, nextLexeme_of_token hscan]
          exact ⟨rfl, later⟩
  | token =>
      induction h with
      | nil s =>
          rw [hstop.ask .token]
          exact ⟨rfl, .nil _⟩
      | @cons s middle final t ls hscan later ih =>
          by_cases htrivia : t.isTrivia = true
          · -- The call goes on from the stream behind the trivia.
            have hreached : Call.token.reached (t :: ls) = Call.token.reached ls := by
              simp [Call.reached, htrivia]
            rw [TokenStream.ask, nextToken_of_trivia hscan htrivia, Call.answer, hreached]
            exact ih hstop
          · have hreached : Call.token.reached (t :: ls) = t :: ls := by
              simp [Call.reached, htrivia]
            rw [TokenStream.ask, nextToken_of_token hscan (by simpa using htrivia), Call.answer,
              hreached]
            exact ⟨rfl, later⟩

/-- **Calls one after another** walk along the lexemes. -/
theorem Passes.answers_eq_walk (h : s.Passes ls final) (hstop : final.Halts stop)
    (calls : List Call) : s.answers calls = walk stop ls calls := by
  induction calls generalizing s ls with
  | nil => rfl
  | cons call later ih =>
      obtain ⟨hanswer, hleft⟩ := h.ask hstop call
      rw [TokenStream.answers, walk, hanswer, ih hleft]

/-- Asking for lexemes alone gives all of them, and then what the stream has to
answer where it stops. -/
theorem Passes.answers_lexemes (h : s.Passes ls final) (hstop : final.Halts stop) (n : Nat) :
    s.answers (List.replicate (ls.length + n) .lexeme)
      = ls.map (fun t => .ok (some t)) ++ List.replicate n stop := by
  induction h with
  | nil s => simpa using hstop.answers (List.replicate n .lexeme)
  | @cons s middle final t ls hscan later ih =>
      rw [List.length_cons, Nat.add_right_comm, List.replicate_succ, TokenStream.answers,
        TokenStream.ask, nextLexeme_of_token hscan, ih hstop, List.map_cons, List.cons_append]

/-- Lexemes that are passed come one after another, so none of them is passed
twice. -/
theorem Passes.nodup (h : s.Passes ls final) : ls.Nodup := by
  induction h with
  | nil s => exact List.nodup_nil
  | @cons s middle final t ls hscan later ih =>
      refine List.nodup_cons.mpr ⟨?_, ih⟩
      intro hmem
      obtain ⟨s₁, s₂, hreaches, hscan'⟩ := later.of_mem hmem
      have hle : middle.offset ≤ s₁.offset := hreaches.offset_le
      have hlt : s.offset < middle.offset := scan_advances hscan
      have hstart : s.offset = s₁.offset := (scan_place hscan).1.symm.trans (scan_place hscan').1
      omega

/-- **Tokens are lexemes.**  What a stream still has to give are the lexemes that
it passes, without the trivia, and then what comes after them. -/
theorem Passes.outlook (h : s.Passes ls final) :
    s.outlook = (ls.filter Token.isVisible ++ final.outlook.1, final.outlook.2) := by
  induction h with
  | nil s => rfl
  | @cons s middle final t ls hscan later ih =>
      by_cases htrivia : t.isTrivia = true
      · rw [outlook_of_trivia hscan htrivia, ih]
        simp [Token.isVisible, htrivia]
      · have htoken := nextToken_of_token hscan (by simpa using htrivia)
        rw [outlook_of_token htoken, ih]
        simp [Token.isVisible, htrivia]

end TokenStream

open TokenStream

/-- A source passes its lexemes and stops.  They are all there is to read if it
stops at its end, and else the error is what reading all of it gives. -/
theorem exists_passes_halts (source : String) :
    ∃ ls final stop, (ofText source).Passes ls final ∧ final.Halts stop ∧
      (stop = .ok none ∧ lexemes source = .ok ls ∨
        ∃ e, stop = .error e ∧ lexemes source = .error e) := by
  obtain ⟨ls, final, hpasses, ⟨hend, hall⟩ | ⟨e, hfails, hall⟩⟩ := exists_passes (ofText source)
  · exact ⟨ls, final, .ok none, hpasses, .ended hend, Or.inl ⟨rfl, hall⟩⟩
  · exact ⟨ls, final, .error e, hpasses, .failed hfails, Or.inr ⟨e, rfl, hall⟩⟩

/-- Reading all tokens of a source is reading all lexemes and leaving out the
trivia; both fail with the same error. -/
theorem tokenize_eq_lexemes (source : String) :
    tokenize source = (lexemes source).map (List.filter Token.isVisible) := by
  obtain ⟨ls, final, hpasses, ⟨hend, hall⟩ | ⟨e, hfails, hall⟩⟩ := exists_passes (ofText source)
  · have hlexemes : lexemes source = .ok ls := hall
    rw [hlexemes]
    refine tokenize_eq_ok_iff.mpr ?_
    rw [hpasses.outlook, outlook_of_end (nextToken_of_end hend), List.append_nil]
  · have hlexemes : lexemes source = .error e := hall
    rw [hlexemes]
    refine tokenize_eq_error_iff.mpr ?_
    rw [hpasses.outlook, outlook_of_error (nextToken_of_error hfails)]

/-- A source with some lexemes passes them and comes to its end. -/
theorem passes_of_lexemes {source : String} {ls : List Token} (h : lexemes source = .ok ls) :
    ∃ final, (ofText source).Passes ls final ∧ final.rest = [] := by
  obtain ⟨found, final, hpasses, ⟨hend, hall⟩ | ⟨e, _, hall⟩⟩ := exists_passes (ofText source)
  · obtain rfl := Except.ok.inj (h.symm.trans hall)
    exact ⟨final, hpasses, scan_eq_none_iff.mp hend⟩
  · cases h.symm.trans hall

theorem tokenize_of_lexemes {source : String} {ls : List Token} (h : lexemes source = .ok ls) :
    tokenize source = .ok (ls.filter Token.isVisible) := by
  rw [tokenize_eq_lexemes, h]
  rfl

/-- **Calls walk along the lexemes.**  There is one list of lexemes that asking
for lexemes alone gives, and one answer that it gives ever after.  However calls
are mixed, their answers are those of a walk along that list, on which no lexeme
is given twice and no token is left out.

Once a call answers with the end or with an error, all later calls have that
answer and the stream does not move; it stands where the error says.  So reading
all tokens of a source and reading all its lexemes fail together, and otherwise
the tokens are the lexemes without the trivia. -/
theorem calls_walk (source : String) :
    (∃ ls stop,
      (stop = .ok none ∧ lexemes source = .ok ls ∨
        ∃ e, stop = .error e ∧ lexemes source = .error e) ∧
      (∀ n, (ofText source).answers (List.replicate (ls.length + n) .lexeme)
        = ls.map (fun t => .ok (some t)) ++ List.replicate n stop) ∧
      ∀ calls,
        (ofText source).answers calls = walk stop ls calls ∧
        (given ((ofText source).answers calls)).Nodup ∧
        (given ((ofText source).answers calls)).Sublist ls ∧
        (given ((ofText source).answers calls)).filter Token.isVisible
          <+: ls.filter Token.isVisible) ∧
    (∀ calls call fetch, ((ofText source).afterCalls calls).ask call = fetch →
      (fetch.answer = .ok none ∨ ∃ e, fetch.answer = .error e) →
        (∀ later, fetch.stream.answers later = List.replicate later.length fetch.answer ∧
          fetch.stream.afterCalls later = fetch.stream) ∧
        ∀ e, fetch.answer = .error e →
          fetch.stream.offset = e.offset ∧ fetch.stream.position = e.position) ∧
    tokenize source = (lexemes source).map (List.filter Token.isVisible) := by
  refine ⟨?_, ?_, tokenize_eq_lexemes source⟩
  · obtain ⟨ls, final, stop, hpasses, hstop, hlexemes⟩ := exists_passes_halts source
    refine ⟨ls, stop, hlexemes, hpasses.answers_lexemes hstop, ?_⟩
    intro calls
    have hwalk := hpasses.answers_eq_walk hstop calls
    have hsublist := given_walk_sublist hstop.ne_token ls calls
    rw [hwalk]
    exact ⟨rfl, hsublist.nodup hpasses.nodup, hsublist,
      filter_given_walk_prefix hstop.ne_token ls calls⟩
  · rintro calls call fetch rfl hanswer
    have hnone : ∀ t, (((ofText source).afterCalls calls).ask call).answer ≠ .ok (some t) := by
      intro t ht
      rcases hanswer with hend | ⟨e, hfails⟩
      · cases ht.symm.trans hend
      · cases ht.symm.trans hfails
    have hhalts := ask_halts hnone
    refine ⟨fun later => ⟨hhalts.answers later, hhalts.afterCalls later⟩, ?_⟩
    intro e he
    rw [he] at hhalts
    exact hhalts.error_place

/-- The second call for a token passes a space and a comment, and fails at the
tilde behind them.  No call after it has another answer. -/
theorem calls_walk_tilde :
    ∃ fetch e, ((ofText "aa /x/~").afterCalls [.token]).ask .token = fetch ∧
      fetch.answer = .error e ∧ e.offset = 6 ∧
      fetch.stream.offset = 6 ∧ fetch.stream.position = ⟨1, 7⟩ ∧
      ∀ later, fetch.stream.answers later = List.replicate later.length (.error e) ∧
        fetch.stream.afterCalls later = fetch.stream := by
  have hanswer : (((ofText "aa /x/~").afterCalls [.token]).ask .token).answer
      = .error ⟨.unexpectedCharacter '~', 6, ⟨1, 7⟩⟩ := by cbv
  obtain ⟨hstays, hplace⟩ := (calls_walk "aa /x/~").2.1 [.token] .token _ rfl (Or.inr ⟨_, hanswer⟩)
  refine ⟨_, _, rfl, hanswer, rfl, (hplace _ hanswer).1, (hplace _ hanswer).2, ?_⟩
  intro later
  rw [← hanswer]
  exact hstays later

end TildeLang
