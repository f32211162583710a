import TildeLang.Token.Stream

/-!
# Parses

A parse reads a token stream one token ahead.  Where it stands is its
**cursor**: the stream, the token read ahead, and the number of levels that
are open.  A **level** is a statement or an assignment expression that has
been begun and not finished.

A parse also keeps its **history**: everything that happened, each event
together with the cursor it led to.  The log of a run is read off its history,
and so is every statement about what holds throughout a run.

`Parse α` is the type of the rules: a rule takes a parser to an answer and to
the parser that is left, also when the answer is an error.  The steps from
which the rules are made are `peek`, `eat`, `fail`, `within` and `note`, and
the loop `collectWhile`.
-/

namespace TildeLang

/-- Where a parse stands. -/
structure Cursor where
  stream : TokenStream
  lookahead : Option Token
  depth : Nat
deriving DecidableEq

namespace Cursor

/-- The kind of the token read ahead; `none` at the end of the input. -/
def kind? (c : Cursor) : Option Kind := c.lookahead.map Token.kind

/-- The position of the token read ahead, or of the end of the input. -/
def position (c : Cursor) : Position :=
  match c.lookahead with
  | some t => t.position
  | none => c.stream.position

/-- A bound on the number of tokens that are still to come. -/
def size (c : Cursor) : Nat :=
  c.stream.rest.length + if c.lookahead.isSome then 1 else 0

end Cursor

/-- What can happen in a parse. -/
inductive Event where
  /-- A program is begun, of so many bytes. -/
  | began (bytes : Nat)
  /-- The stream has scanned a token, trivia included. -/
  | scanned (t : Token)
  /-- A rule has used the token read ahead. -/
  | took (t : Token)
  /-- A level is opened. -/
  | opened (rule : Rule)
  /-- A level is closed, whatever its outcome. -/
  | closed (rule : Rule)
  /-- A statement is begun. -/
  | statement (position : Position)
  /-- A rule has failed. -/
  | failed (e : ParseError)
  /-- A program is complete, with so many statements at the top. -/
  | finished (statements : Nat)
deriving DecidableEq

/-- An event, and the cursor it led to. -/
structure Moment where
  event : Event
  cursor : Cursor
deriving DecidableEq

/-- A cursor with its history, latest moment first. -/
structure Parser extends Cursor where
  history : List Moment
deriving DecidableEq

namespace Parser

/-- A parser that has been given no source. -/
def unset : Parser := ⟨⟨.unset, none, 0⟩, []⟩

/-- Adds events to the history, in the order in which they happened. -/
def record (p : Parser) (events : List Event) : Parser :=
  ⟨p.toCursor, (events.map fun e => ⟨e, p.toCursor⟩).reverse ++ p.history⟩

/-- A parser whose cursor has been moved. -/
def moveTo (p : Parser) (c : Cursor) : Parser := ⟨c, p.history⟩

end Parser

/-- A rule: from a parser to an answer and the parser that is left. -/
def Parse (α : Type) : Type := Parser → Except Error α × Parser

namespace Parse

variable {α β : Type}

/-- Answers without looking at anything. -/
protected def pure (a : α) : Parse α := fun p => (.ok a, p)

/-- Runs one rule and then another; the first error ends both. -/
protected def bind (rule : Parse α) (next : α → Parse β) : Parse β := fun p =>
  match rule p with
  | (.ok a, p') => next a p'
  | (.error e, p') => (.error e, p')

instance : Monad Parse where
  pure := Parse.pure
  bind := Parse.bind

/-- Adds an event to the history. -/
def note (event : Cursor → Event) : Parse Unit := fun p =>
  (.ok (), p.record [event p.toCursor])

/-- The kind of the token read ahead. -/
def peek : Parse (Option Kind) := fun p => (.ok p.kind?, p)

/-- Gives up in a rule, at the token read ahead. -/
def fail (rule : Rule) (cause : Cursor → ParseCause) : Parse α := fun p =>
  let e : ParseError := ⟨rule, cause p.toCursor, p.position⟩
  (.error (.grammar e), p.record [.failed e])

/-- Reads the next token ahead, as part of what the events say. -/
def fetch (events : List Event) : Parse Unit := fun p =>
  match p.stream.nextToken with
  | ⟨scanned, .ok next, stream⟩ =>
      (.ok (), (p.moveTo ⟨stream, next, p.depth⟩).record (events ++ scanned.map .scanned))
  | ⟨scanned, .error e, stream⟩ =>
      (.error (.lexical e),
        (p.moveTo ⟨stream, none, p.depth⟩).record (events ++ scanned.map .scanned))

/-- Uses the token read ahead, which must be of the expected kind, and reads
the next one.  A token of another kind stays where it is. -/
def eat (expected : Kind) (rule : Rule) : Parse Token := fun p =>
  match p.lookahead with
  | some t =>
      if t.kind = expected then Parse.bind (fetch [.took t]) (fun _ => Parse.pure t) p
      else fail rule (fun c => .unexpectedToken expected c.kind?) p
  | none => fail rule (fun c => .unexpectedToken expected c.kind?) p

/-- **Progress.**  Using a token leaves fewer tokens to come. -/
theorem size_eat_lt {expected : Kind} {rule : Rule} {p p' : Parser} {t : Token}
    (h : eat expected rule p = (.ok t, p')) : p'.size < p.size := by
  unfold eat at h
  split at h
  · rename_i ahead hahead
    split at h
    · simp only [Parse.bind, fetch] at h
      cases hn : p.stream.nextToken with
      | mk scanned answer stream =>
          cases answer with
          | error e => simp [hn] at h
          | ok next =>
              simp only [hn, Parse.pure, Prod.mk.injEq] at h
              obtain ⟨_, rfl⟩ := h
              cases next with
              | none =>
                  have hle := TokenStream.length_nextToken_le hn
                  simp only [Parser.record, Parser.moveTo, Cursor.size, hahead]
                  simp
                  omega
              | some t' =>
                  have hlt := TokenStream.length_nextToken_lt hn
                  simp only [Parser.record, Parser.moveTo, Cursor.size, hahead]
                  simp
                  omega
    · simp [fail] at h
  · simp [fail] at h

/-- Runs a rule one level deeper, and comes back from the level whatever the
outcome. -/
def within (rule : Rule) (body : Parse α) : Parse α := fun p =>
  let inside := (p.moveTo { p.toCursor with depth := p.depth + 1 }).record [.opened rule]
  match body inside with
  | (answer, p') =>
      (answer, (p'.moveTo { p'.toCursor with depth := p'.depth - 1 }).record [.closed rule])

/-- Refuses to open a level: as many are open as may be. -/
def tooDeep (rule : Rule) : Parse α :=
  fail rule fun c => .nestingTooDeep c.depth

/-- Runs a rule for as long as the token read ahead is accepted, `count` times
at most, and collects the answers. -/
def collectUpTo (accepts : Kind → Bool) (rule : Parse α) : (count : Nat) → Parse (List α)
  | 0 => pure []
  | count + 1 => do
      if (← peek).any accepts then
        let first ← rule
        let more ← collectUpTo accepts rule count
        return first :: more
      else
        return []

/-- Runs a rule for as long as the token read ahead is accepted.  The rule
must use a token every time, so the size of the cursor bounds the number of
its runs. -/
def collectWhile (accepts : Kind → Bool) (rule : Parse α) : Parse (List α) := fun p =>
  collectUpTo accepts rule p.size p

end Parse

end TildeLang
