import TildeLang.Proofs.Outlook

/-!
# Traces of a parse

A **trace** is what a rule does to its parser, recorded with the tokens that
it uses on the way: it notes events, it takes the token read ahead and fetches
the next one, and it runs other rules inside levels that it opens and closes.
Every run of a rule that meets no lexical error is such a trace.

* `Reads.upcoming` — the tokens of a trace come off the front of the tokens to
  come, in order, and nothing else does;
* `Reads.fault?` — the lexical error at the end of the tokens stays where it
  is;
* `Reads.size` — a trace makes progress by the number of its tokens.
-/

namespace TildeLang

namespace Parser

/-- The parser inside a level that it has just opened. -/
def entering (p : Parser) (rule : Rule) : Parser :=
  (p.moveTo { p.toCursor with depth := p.depth + 1 }).record [.opened rule]

/-- The parser outside a level that it has just closed. -/
def leaving (p : Parser) (rule : Rule) : Parser :=
  (p.moveTo { p.toCursor with depth := p.depth - 1 }).record [.closed rule]

@[simp]
theorem record_toCursor (p : Parser) (events : List Event) :
    (p.record events).toCursor = p.toCursor := rfl

@[simp]
theorem moveTo_toCursor (p : Parser) (c : Cursor) : (p.moveTo c).toCursor = c := rfl

@[simp]
theorem entering_upcoming (p : Parser) (rule : Rule) :
    (p.entering rule).upcoming = p.upcoming := rfl

@[simp]
theorem leaving_upcoming (p : Parser) (rule : Rule) :
    (p.leaving rule).upcoming = p.upcoming := rfl

@[simp]
theorem entering_fault? (p : Parser) (rule : Rule) :
    (p.entering rule).fault? = p.fault? := rfl

@[simp]
theorem leaving_fault? (p : Parser) (rule : Rule) : (p.leaving rule).fault? = p.fault? := rfl

end Parser

/-- What a rule does to its parser, with the tokens that it uses. -/
inductive Reads : Parser → List Token → Parser → Prop
  | stay (p : Parser) : Reads p [] p
  | note (p : Parser) (event : Event) : Reads p [] (p.record [event])
  | take {p : Parser} {t : Token} {scanned : List Token} {next : Option Token}
      {stream : TokenStream}
      (hahead : p.lookahead = some t)
      (hnext : p.stream.nextToken = ⟨scanned, .ok next, stream⟩) :
      Reads p [t]
        ((p.moveTo ⟨stream, next, p.depth⟩).record (.took t :: scanned.map .scanned))
  | nest {p q : Parser} {ts : List Token} (rule : Rule)
      (inside : Reads (p.entering rule) ts q) : Reads p ts (q.leaving rule)
  | append {p q r : Parser} {ts us : List Token}
      (first : Reads p ts q) (second : Reads q us r) : Reads p (ts ++ us) r

namespace Reads

variable {p q : Parser} {ts : List Token}

/-- **Tokens are used in order.**  What a trace reads is what it takes off the
front of the tokens to come. -/
theorem upcoming (h : Reads p ts q) : p.upcoming = ts ++ q.upcoming := by
  induction h with
  | stay p => rfl
  | note p event => rfl
  | @take p t scanned next stream hahead hnext =>
      rw [Cursor.upcoming_of_lookahead hahead]
      have hfetched := (Cursor.outlook_fetched hnext p.depth).1
      simp [hfetched]
  | nest rule inside ih => simpa using ih
  | append first second ih₁ ih₂ => rw [ih₁, ih₂, List.append_assoc]

/-- The first token of a trace is the one read ahead. -/
theorem lookahead {t : Token} (h : Reads p (t :: ts) q) : p.lookahead = some t := by
  rw [← Cursor.head?_upcoming, h.upcoming]
  rfl

theorem kind? (h : Reads p ts q) (hne : ts ≠ []) : p.kind? = ts.head?.map Token.kind := by
  cases ts with
  | nil => exact absurd rfl hne
  | cons t ts => simp [Cursor.kind?, h.lookahead]

/-- The lexical error at the end of the tokens stays where it is. -/
theorem fault? (h : Reads p ts q) : q.fault? = p.fault? := by
  induction h with
  | stay p => rfl
  | note p event => rfl
  | @take p t scanned next stream hahead hnext =>
      rw [Cursor.fault?_of_lookahead hahead]
      exact (Cursor.outlook_fetched hnext p.depth).2
  | nest rule inside ih => simpa using ih
  | append first second ih₁ ih₂ => rw [ih₂, ih₁]

/-- A trace that ends at the end of the input has read all tokens to come, and
no lexical error comes after them. -/
theorem exhausted (h : Reads p ts q) (hend : q.kind? = none) :
    p.upcoming = ts ∧ p.fault? = none := by
  have hahead : q.lookahead = none := Option.map_eq_none_iff.mp hend
  rw [h.upcoming, ← h.fault?, Cursor.upcoming_eq_nil_iff.mpr hahead, List.append_nil]
  exact ⟨rfl, by simp [Cursor.fault?, hahead]⟩

/-- Fetching the next token makes up for at most the token that was used. -/
private theorem size_fetched {s next : TokenStream} {scanned : List Token}
    {answer : Option Token} (h : s.nextToken = ⟨scanned, .ok answer, next⟩) (depth : Nat) :
    (Cursor.mk next answer depth).size ≤ s.rest.length := by
  cases answer with
  | none =>
      have hle := TokenStream.length_nextToken_le h
      simpa [Cursor.size] using hle
  | some t =>
      have hlt := TokenStream.length_nextToken_lt h
      simpa [Cursor.size, Nat.succ_le_iff] using hlt

/-- **Progress.**  Every token of a trace makes the parser smaller. -/
theorem size (h : Reads p ts q) : q.size + ts.length ≤ p.size := by
  induction h with
  | stay p => simp
  | note p event => simp
  | @take p t scanned next stream hahead hnext =>
      have hle := size_fetched hnext p.depth
      have hp : p.size = p.stream.rest.length + 1 := by simp [Cursor.size, hahead]
      simp only [Parser.record_toCursor, Parser.moveTo_toCursor, List.length_singleton]
      omega
  | nest rule inside ih => exact ih
  | append first second ih₁ ih₂ =>
      rw [List.length_append]
      omega

end Reads

end TildeLang
