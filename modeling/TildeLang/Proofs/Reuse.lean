import TildeLang.Proofs.Counter

/-!
# Using a parser again

A parser can be used for one source after another.  What it has done before is
still there when it is put at the front of the next source: a stream in the
middle of the old one, a token read ahead or one that was taken out and not
replaced, and the depth that the last run has left.  All of it is set anew
before anything is read, also where reading the first token fails.

So every call answers as the same call of an unused parser, and leaves the same
parser, whatever calls came before and however they ended.

* `Parser.replies` — calls one after another;
* `Parser.serve_eq` — one call of a parser that may have been used;
* `reuse` — all calls of a parser, also where the rules count their levels in
  the parser itself.
-/

namespace TildeLang

/-- A call of a parser. -/
inductive Request where
  | program (source : String)
  | expression (source : String)

/-- What a call answers. -/
inductive Reply where
  | program (answer : Except Error Program)
  | expression (answer : Except Error Expr)

/-- The reply of an unused parser. -/
def Request.reply : Request → Reply
  | program source => .program (parse source)
  | expression source => .expression (parseExpression source)

namespace Parser

/-- Makes a call, and leaves the parser for the next one. -/
def serve (p : Parser) : Request → Reply × Parser
  | .program source => (p.parse source).map .program id
  | .expression source => (p.parseExpression source).map .expression id

/-- Makes a call with some rules. -/
def serveBy (rules : Parse.Rules) (p : Parser) : Request → Reply × Parser
  | .program source => (parseBy rules source p).map .program id
  | .expression source => (parseExpressionBy rules source p).map .expression id

/-- Makes calls one after another, each with the parser that the one before has
left. -/
def replies (p : Parser) : List Request → List Reply
  | [] => []
  | request :: later => (p.serve request).1 :: (p.serve request).2.replies later

/-- **One call** does the same, whatever the parser has done before. -/
theorem serve_eq (p q : Parser) (request : Request) : p.serve request = q.serve request := by
  have hsame : ∀ {α : Type} (source : String) (events : List Event) (next : Unit → Parse α),
      (restart source events >>= next) p = (restart source events >>= next) q := by
    intro α source events next
    rw [restart_bind, restart_bind]
  cases request with
  | program source => exact congrArg (Prod.map Reply.program id) (hsame source _ _)
  | expression source => exact congrArg (Prod.map Reply.expression id) (hsame source _ _)

theorem reply_of_serve (request : Request) : (unset.serve request).1 = request.reply := by
  cases request with
  | program source => rfl
  | expression source => rfl

/-- **All calls** of a parser answer as those of unused ones. -/
theorem replies_eq (p : Parser) (requests : List Request) :
    p.replies requests = requests.map Request.reply := by
  induction requests generalizing p with
  | nil => rfl
  | cons request later ih =>
      have hfirst : (p.serve request).1 = request.reply := by
        rw [serve_eq p unset, reply_of_serve]
      rw [replies, hfirst, ih, List.map_cons]

/-- A call with rules that count is a call. -/
theorem serveBy_counted (p : Parser) (request : Request) :
    p.serveBy (.counted maxNesting) request = p.serve request := by
  cases request with
  | program source =>
      exact congrArg (Prod.map Reply.program id) (parseBy_counted maxNesting source p)
  | expression source =>
      exact congrArg (Prod.map Reply.expression id) (parseExpressionBy_counted maxNesting source p)

end Parser

/-- **Using a parser again.**  Whatever calls a parser has answered, and however
they ended, each further call is answered as by an unused parser, and leaves what
that call leaves of an unused one.

It is so although the levels of a call are counted in the parser: a call is made
with the only rules that look at the depth to see whether a level may be
opened. -/
theorem reuse :
    (∀ (p : Parser) (requests : List Request),
      p.replies requests = requests.map Request.reply) ∧
    (∀ (p : Parser) (request : Request), p.serve request = Parser.unset.serve request) ∧
    (∀ (p : Parser) (request : Request),
      p.serveBy (.counted maxNesting) request = p.serve request) ∧
    (∀ rules : Parse.Rules, rules.Counting maxNesting ↔ rules = .counted maxNesting) :=
  ⟨Parser.replies_eq, fun p => p.serve_eq Parser.unset, Parser.serveBy_counted,
    fun _ => Parse.Rules.counting_iff⟩

/-- The first call fails before a token is read, the second after one has been
taken out, and the third in front of a token that stays there. -/
example : Parser.unset.replies
      [.program "~", .expression "(aa ~", .program "aa = )", .expression "aa"]
    = [.program (.error (.lexical ⟨.unexpectedCharacter '~', 0, ⟨1, 1⟩⟩)),
      .expression (.error (.lexical ⟨.unexpectedCharacter '~', 4, ⟨1, 5⟩⟩)),
      .program (.error (.grammar
        ⟨.primaryExpression, .unexpectedPrimary (some .rightParen), ⟨1, 6⟩⟩)),
      .expression (.ok (.identifier "aa"))] := by cbv

end TildeLang
