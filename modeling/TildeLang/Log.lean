import TildeLang.Parse.Source

/-!
# The log of a run

What a run reports of itself: the events of its history that have a message,
in the order in which they happened.  Using a token and opening or closing a
level are not reported.
-/

namespace TildeLang

/-- How much detail a message gives. -/
inductive Level where
  | info
  | debug
  | trace
deriving DecidableEq, Repr

/-- The name under which a level is printed. -/
def Level.name : Level → String
  | info => "INFO"
  | debug => "DEBUG"
  | trace => "TRACE"

/-- A message with its level. -/
structure LogEntry where
  level : Level
  message : String
deriving DecidableEq, Repr

/-- What the log says of a scanned token. -/
def Token.logEntry (t : Token) : LogEntry where
  level := .trace
  message :=
    s!"scanned {t.kind.name} {Text.quote t.raw} at {t.position.line}:{t.position.column}"

/-- What the log says of an event. -/
def Event.logEntry? : Event → Option LogEntry
  | began bytes => some ⟨.info, s!"parsing {bytes} bytes"⟩
  | scanned t => some t.logEntry
  | took _ => none
  | opened _ => none
  | closed _ => none
  | statement position => some ⟨.debug, s!"statement at {position.describe}"⟩
  | failed e => some ⟨.debug, s!"{e.rule.name} failed: {e.message}"⟩
  | finished statements => some ⟨.info, s!"parsed {statements} top-level statements"⟩

/-- The log of the run that a parser has made. -/
def Parser.log (p : Parser) : List LogEntry :=
  p.history.reverse.filterMap fun m => m.event.logEntry?

/-- The log of reading the tokens of a source. -/
def tokenizeLog (source : String) : List LogEntry :=
  (TokenStream.ofText source).tokens.1.map Token.logEntry

end TildeLang
