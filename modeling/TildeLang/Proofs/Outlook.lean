import TildeLang.Parse.Source

/-!
# What a stream still has to give

The **outlook** of a stream is everything that asking for the next token again
and again will give: a list of tokens, and the lexical error that ends it, if
one does.  A cursor has the same outlook with its token read ahead in front.

Rules of the grammar see a source only through the outlook of their cursor, so
what they do is stated in terms of it.

* `tokenize_eq_ok_iff`, `tokenize_eq_error_iff` — reading all tokens of a source
  succeeds exactly when its outlook ends without an error, and gives that list;
* `Cursor.outlook_fetched` — a cursor that has fetched a token ahead still has
  the whole outlook to come.
-/

namespace TildeLang

namespace TokenStream

/-- The tokens that asking again and again for the next one gives, and the
error that ends them, if there is one. -/
def outlook (s : TokenStream) : List Token × Option LexError :=
  match _hs : s.nextToken with
  | ⟨_, .error e, _⟩ => ([], some e)
  | ⟨_, .ok none, _⟩ => ([], none)
  | ⟨_, .ok (some t), next⟩ =>
      let later := next.outlook
      (t :: later.1, later.2)
termination_by s.rest.length
decreasing_by exact length_nextToken_lt ‹_›

theorem outlook_of_error {s next : TokenStream} {scanned : List Token} {e : LexError}
    (h : s.nextToken = ⟨scanned, .error e, next⟩) : s.outlook = ([], some e) := by
  rw [outlook]
  split <;> simp_all

theorem outlook_of_end {s next : TokenStream} {scanned : List Token}
    (h : s.nextToken = ⟨scanned, .ok none, next⟩) : s.outlook = ([], none) := by
  rw [outlook]
  split <;> simp_all

theorem outlook_of_token {s next : TokenStream} {scanned : List Token} {t : Token}
    (h : s.nextToken = ⟨scanned, .ok (some t), next⟩) :
    s.outlook = (t :: next.outlook.1, next.outlook.2) := by
  rw [outlook]
  split <;> simp_all

/-- The first token of an outlook is the next one, and the others are the
outlook after it. -/
theorem outlook_eq_cons {s : TokenStream} {t : Token} {ts : List Token}
    {fault : Option LexError} (h : s.outlook = (t :: ts, fault)) :
    ∃ scanned next, s.nextToken = ⟨scanned, .ok (some t), next⟩ ∧
      next.outlook = (ts, fault) := by
  rcases hnext : s.nextToken with ⟨scanned, answer, next⟩
  rcases answer with e | found
  · rw [outlook_of_error hnext] at h
    cases h
  · cases found with
    | none =>
        rw [outlook_of_end hnext] at h
        cases h
    | some u =>
        rw [outlook_of_token hnext] at h
        cases h
        exact ⟨scanned, next, rfl, rfl⟩

/-- Reading all tokens of a stream gives its outlook. -/
theorem tokens_eq_outlook (s : TokenStream) :
    s.tokens.2 = match s.outlook with
      | (ts, none) => .ok ts
      | (_, some e) => .error e := by
  fun_induction tokens s with
  | case1 s scanned e next hs => rw [outlook_of_error hs]
  | case2 s scanned next hs => rw [outlook_of_end hs]
  | case3 s scanned t next hs more found hlater ih =>
      rw [outlook_of_token hs]
      rw [hlater] at ih
      simp only at ih ⊢
      rw [ih]
      obtain ⟨us, fault⟩ := next.outlook
      cases fault <;> rfl

end TokenStream

/-- A source can be cut into tokens exactly when its outlook ends without an
error, and the tokens are those of the outlook. -/
theorem tokenize_eq_ok_iff {source : String} {ts : List Token} :
    tokenize source = .ok ts ↔ (TokenStream.ofText source).outlook = (ts, none) := by
  rw [tokenize, TokenStream.tokens_eq_outlook]
  obtain ⟨us, fault⟩ := (TokenStream.ofText source).outlook
  cases fault with
  | none => simp
  | some e => simp

/-- Otherwise the error is the one that ends the outlook. -/
theorem tokenize_eq_error_iff {source : String} {e : LexError} :
    tokenize source = .error e ↔ (TokenStream.ofText source).outlook.2 = some e := by
  rw [tokenize, TokenStream.tokens_eq_outlook]
  obtain ⟨us, fault⟩ := (TokenStream.ofText source).outlook
  cases fault with
  | none => simp
  | some e => simp

namespace Cursor

/-- The tokens still to come: the one read ahead, and those of the stream. -/
def upcoming (c : Cursor) : List Token :=
  match c.lookahead with
  | none => []
  | some t => t :: c.stream.outlook.1

/-- The lexical error that ends the tokens still to come, if there is one. -/
def fault? (c : Cursor) : Option LexError :=
  match c.lookahead with
  | none => none
  | some _ => c.stream.outlook.2

@[simp]
theorem head?_upcoming (c : Cursor) : c.upcoming.head? = c.lookahead := by
  unfold upcoming
  cases c.lookahead <;> rfl

theorem upcoming_of_lookahead {c : Cursor} {t : Token} (h : c.lookahead = some t) :
    c.upcoming = t :: c.stream.outlook.1 := by
  simp [upcoming, h]

theorem fault?_of_lookahead {c : Cursor} {t : Token} (h : c.lookahead = some t) :
    c.fault? = c.stream.outlook.2 := by
  simp [fault?, h]

theorem upcoming_eq_nil_iff {c : Cursor} : c.upcoming = [] ↔ c.lookahead = none := by
  rw [← head?_upcoming, List.head?_eq_none_iff]

/-- A cursor that has just fetched an answer from a stream has the outlook of
that stream. -/
theorem outlook_fetched {s next : TokenStream} {scanned : List Token} {answer : Option Token}
    (h : s.nextToken = ⟨scanned, .ok answer, next⟩) (depth : Nat) :
    (Cursor.mk next answer depth).upcoming = s.outlook.1 ∧
      (Cursor.mk next answer depth).fault? = s.outlook.2 := by
  cases answer with
  | none => simp [upcoming, fault?, TokenStream.outlook_of_end h]
  | some t => simp [upcoming, fault?, TokenStream.outlook_of_token h]

end Cursor

end TildeLang
