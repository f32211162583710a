import Mathlib.Data.List.Chain
import TildeLang.Proofs.Location

/-!
# Asking a stream for tokens

A stream can be asked for its next lexeme and for its next token, again and
again and in any order.  Whatever is asked, nothing but scanning moves the
stream: it **passes** tokens one after another, and stops at the end of the
source or at a lexical error.

* `afterCalls_reaches` — calls lead from a stream to one that it reaches;
* `exists_scan_of_answer` — a token that is answered stands in the source;
* `ask_token`, `ask_error`, `ask_end` — what a call answers was scanned on the
  way;
* `outlook_fault` — so was the error that ends the tokens of a stream;
* `exists_passes` — every stream comes to its end, or to an error;
* `Passes.answers` — asking for lexemes gives the tokens that are passed.
-/

namespace TildeLang

theorem Text.byteLength_pos {text : List Char} (h : text ≠ []) : 0 < byteLength text := by
  cases text with
  | nil => exact absurd rfl h
  | cons c text =>
      have hpos := c.utf8Size_pos
      rw [byteLength_cons]
      omega

/-- The two ways to ask a stream. -/
inductive Call where
  /-- For the next token, trivia included. -/
  | lexeme
  /-- For the next token that is no trivia. -/
  | token
deriving DecidableEq, Repr

namespace TokenStream

/-- The outcome of asking a stream once. -/
def ask (s : TokenStream) : Call → Fetch
  | .lexeme => s.nextLexeme
  | .token => s.nextToken

/-- The stream after calls one after another, whatever they answer. -/
def afterCalls (s : TokenStream) (calls : List Call) : TokenStream :=
  calls.foldl (fun s call => (s.ask call).stream) s

/-- The answers to calls one after another. -/
def answers (s : TokenStream) : List Call → List (Except LexError (Option Token))
  | [] => []
  | call :: later => (s.ask call).answer :: (s.ask call).stream.answers later

variable {s next s' : TokenStream} {t : Token} {ts : List Token} {e : LexError}

/-! ### One call -/

/-- A scanned token tells where its stream stood before it and stands after
it. -/
theorem scan_place (h : s.scan tokenTable = .ok (some (t, next))) :
    t.start = s.offset ∧ t.stop = next.offset ∧ t.position = s.position := by
  obtain ⟨row, taken, rest, value, _, _, _, rfl, rfl⟩ := scan_eq_some h
  exact ⟨rfl, rfl, rfl⟩

/-- Reading a token moves a stream on by at least one byte. -/
theorem scan_advances (h : s.scan tokenTable = .ok (some (t, next))) : s.offset < next.offset := by
  obtain ⟨row, taken, rest, value, _, hsplit, _, _, rfl⟩ := scan_eq_some h
  have hpos := Text.byteLength_pos (Row.split_ne_nil hsplit)
  simp only [after]
  omega

theorem Reaches.offset_le (h : s.Reaches s') : s.offset ≤ s'.offset := by
  induction h with
  | refl s => exact Nat.le_refl _
  | step hscan _ ih =>
      have hlt := scan_advances hscan
      omega

/-- A lexical error tells where its stream stands. -/
theorem scan_error_place (h : s.scan tokenTable = .error e) :
    e.offset = s.offset ∧ e.position = s.position := by
  unfold scan at h
  split at h
  · cases h
  · split at h
    · cases h
      exact ⟨rfl, rfl⟩
    · split at h
      · cases h
        exact ⟨rfl, rfl⟩
      · cases h

theorem nextLexeme_of_error (h : s.scan tokenTable = .error e) :
    s.nextLexeme = ⟨[], .error e, s⟩ := by
  simp only [nextLexeme, h]

theorem nextLexeme_of_end (h : s.scan tokenTable = .ok none) :
    s.nextLexeme = ⟨[], .ok none, s⟩ := by
  simp only [nextLexeme, h]

theorem nextLexeme_of_token (h : s.scan tokenTable = .ok (some (t, next))) :
    s.nextLexeme = ⟨[t], .ok (some t), next⟩ := by
  simp only [nextLexeme, h]

/-- Where looking for a token ends in an error, trivia have been passed up to
the place where scanning fails. -/
theorem nextToken_fails {scanned : List Token}
    (h : s.nextToken = ⟨scanned, .error e, next⟩) :
    s.Reaches next ∧ next.scan tokenTable = .error e := by
  fun_induction nextToken s generalizing scanned with
  | case1 s e' hs =>
      obtain ⟨_, hanswer, rfl⟩ := Fetch.mk.inj h
      obtain rfl : e' = e := by simpa using hanswer
      exact ⟨.refl s, hs⟩
  | case2 s hs => simp at h
  | case3 s t' middle hs htrivia ih =>
      obtain ⟨_, hanswer, hstream⟩ := Fetch.mk.inj h
      have hlater : middle.nextToken = ⟨middle.nextToken.scanned, .error e, next⟩ := by
        rw [← hanswer, ← hstream]
      obtain ⟨hreaches, hscan⟩ := ih hlater
      exact ⟨.step hs hreaches, hscan⟩
  | case4 s t' middle hs htrivia => simp at h

/-- The error that ends an outlook is met by scanning. -/
theorem outlook_fault (h : s.outlook.2 = some e) :
    ∃ s', s.Reaches s' ∧ s'.scan tokenTable = .error e := by
  fun_induction outlook s with
  | case1 s scanned e' next hs =>
      obtain rfl : e' = e := by simpa using h
      exact ⟨next, nextToken_fails hs⟩
  | case2 s scanned next hs => cases h
  | case3 s scanned t next hs later ih =>
      obtain ⟨s', hreaches, hscan⟩ := nextToken_reaches hs
      obtain ⟨s'', hreaches', hfails⟩ := ih h
      exact ⟨s'', hreaches.trans (.step hscan hreaches'), hfails⟩

/-- **A token that is answered** was scanned on the way, and the stream stands
right after it. -/
theorem ask_token {call : Call} (h : (s.ask call).answer = .ok (some t)) :
    ∃ s', s.Reaches s' ∧ s'.scan tokenTable = .ok (some (t, (s.ask call).stream)) := by
  cases call with
  | token =>
      have hnext : s.nextToken = ⟨s.nextToken.scanned, .ok (some t), s.nextToken.stream⟩ := by
        rw [← h]
        rfl
      exact nextToken_reaches hnext
  | lexeme =>
      refine ⟨s, .refl s, ?_⟩
      cases hscan : s.scan tokenTable with
      | error e => simp [ask, nextLexeme_of_error hscan] at h
      | ok found =>
          cases found with
          | none => simp [ask, nextLexeme_of_end hscan] at h
          | some found =>
              obtain ⟨u, next⟩ := found
              obtain rfl : u = t := by simpa [ask, nextLexeme_of_token hscan] using h
              simp [ask, nextLexeme_of_token hscan]

/-- **An error that is answered** is the one at which scanning fails where the
stream stands. -/
theorem ask_error {call : Call} (h : (s.ask call).answer = .error e) :
    s.Reaches (s.ask call).stream ∧ (s.ask call).stream.scan tokenTable = .error e := by
  cases call with
  | token =>
      have hnext : s.nextToken = ⟨s.nextToken.scanned, .error e, s.nextToken.stream⟩ := by
        rw [← h]
        rfl
      exact nextToken_fails hnext
  | lexeme =>
      cases hscan : s.scan tokenTable with
      | error e' =>
          obtain rfl : e' = e := by simpa [ask, nextLexeme_of_error hscan] using h
          simpa [ask, nextLexeme_of_error hscan] using ⟨.refl s, hscan⟩
      | ok found =>
          cases found with
          | none => simp [ask, nextLexeme_of_end hscan] at h
          | some found => simp [ask, nextLexeme_of_token hscan] at h

/-- **The end is answered** only where the whole source has been read. -/
theorem ask_end {call : Call} (h : (s.ask call).answer = .ok none) :
    s.Reaches (s.ask call).stream ∧ (s.ask call).stream.rest = [] := by
  cases call with
  | token =>
      have hnext : s.nextToken = ⟨s.nextToken.scanned, .ok none, s.nextToken.stream⟩ := by
        rw [← h]
        rfl
      exact nextToken_ends hnext
  | lexeme =>
      cases hscan : s.scan tokenTable with
      | error e => simp [ask, nextLexeme_of_error hscan] at h
      | ok found =>
          cases found with
          | none =>
              simpa [ask, nextLexeme_of_end hscan] using ⟨.refl s, scan_eq_none_iff.mp hscan⟩
          | some found => simp [ask, nextLexeme_of_token hscan] at h

/-! ### Calls one after another -/

/-- A call leads to a stream that is reached by scanning. -/
theorem ask_reaches (s : TokenStream) (call : Call) : s.Reaches (s.ask call).stream := by
  cases hanswer : (s.ask call).answer with
  | error e => exact (ask_error hanswer).1
  | ok found =>
      cases found with
      | none => exact (ask_end hanswer).1
      | some t =>
          obtain ⟨s', hreaches, hscan⟩ := ask_token hanswer
          exact hreaches.trans (.step hscan (.refl _))

/-- So do any number of calls. -/
theorem afterCalls_reaches (s : TokenStream) (calls : List Call) :
    s.Reaches (s.afterCalls calls) := by
  induction calls generalizing s with
  | nil => exact .refl s
  | cons call later ih => exact (s.ask_reaches call).trans (ih _)

/-- **A token that is answered after some calls** stands somewhere in the source:
it was scanned where the part of the source before it had been passed. -/
theorem exists_scan_of_answer {source : String} {calls : List Call} {call : Call}
    (h : (((ofText source).afterCalls calls).ask call).answer = .ok (some t)) :
    ∃ (s next : TokenStream) (before : List Char), s.scan tokenTable = .ok (some (t, next)) ∧
      source.toList = before ++ s.rest ∧ t.start = Text.byteLength before := by
  obtain ⟨s, hreaches, hscan⟩ := ask_token h
  have hfront := ((ofText source).afterCalls_reaches calls).trans hreaches
  obtain ⟨before, hsource, hoffset, _, _⟩ := hfront.locatedIn (.ofText source)
  exact ⟨s, _, before, hscan, hsource, (scan_place hscan).1.trans hoffset⟩

/-! ### Passing tokens -/

/-- Scanning gives these tokens one after another, and leads to another
stream. -/
inductive Passes : TokenStream → List Token → TokenStream → Prop
  | nil (s : TokenStream) : Passes s [] s
  | cons {s middle s' : TokenStream} {t : Token} {ts : List Token}
      (hscan : s.scan tokenTable = .ok (some (t, middle))) (later : Passes middle ts s') :
      Passes s (t :: ts) s'

/-- **Every stream comes to its end, or to an error.**  Reading all tokens of a
stream gives the tokens that are passed, or that error. -/
theorem exists_passes (s : TokenStream) :
    ∃ ts s', s.Passes ts s' ∧
      (s'.scan tokenTable = .ok none ∧ s.lexemesBy tokenTable = .ok ts ∨
        ∃ e, s'.scan tokenTable = .error e ∧ s.lexemesBy tokenTable = .error e) := by
  fun_induction lexemesBy tokenTable s with
  | case1 s e hs => exact ⟨[], s, .nil s, Or.inr ⟨e, hs, rfl⟩⟩
  | case2 s hs => exact ⟨[], s, .nil s, Or.inl ⟨hs, rfl⟩⟩
  | case3 s t next hs ih =>
      obtain ⟨ts, s', hpasses, ⟨hend, hall⟩ | ⟨e, hfails, hall⟩⟩ := ih
      · exact ⟨t :: ts, s', .cons hs hpasses, Or.inl ⟨hend, by rw [hall]; rfl⟩⟩
      · exact ⟨t :: ts, s', .cons hs hpasses, Or.inr ⟨e, hfails, by rw [hall]; rfl⟩⟩

namespace Passes

theorem reaches (h : s.Passes ts s') : s.Reaches s' := by
  induction h with
  | nil s => exact .refl s
  | cons hscan _ ih => exact .step hscan ih

/-- The texts of the tokens that are passed are what the stream loses. -/
theorem rest (h : s.Passes ts s') :
    s.rest = (String.join (ts.map Token.raw)).toList ++ s'.rest := by
  induction h with
  | nil s => simp
  | cons hscan _ ih => simp [(scan_rest hscan).1, ih]

/-- At the end of a source, they make up the whole of it. -/
theorem join_eq {source : String} (h : (ofText source).Passes ts s) (hend : s.rest = []) :
    String.join (ts.map Token.raw) = source := by
  have hrest : source.toList = (String.join (ts.map Token.raw)).toList ++ s.rest := h.rest
  rw [hend, List.append_nil] at hrest
  exact (String.toList_inj.mp hrest).symm

/-- Tokens can be passed one part after another. -/
theorem exists_middle {us : List Token} (h : s.Passes (ts ++ us) s') :
    ∃ middle, s.Passes ts middle ∧ middle.Passes us s' := by
  induction ts generalizing s with
  | nil => exact ⟨s, .nil s, h⟩
  | cons t ts ih =>
      cases h with
      | cons hscan later =>
          obtain ⟨middle, hbefore, hafter⟩ := ih later
          exact ⟨middle, .cons hscan hbefore, hafter⟩

/-- Every token that is passed is scanned somewhere on the way. -/
theorem of_mem (h : s.Passes ts s') (ht : t ∈ ts) :
    ∃ s₁ s₂, s.Reaches s₁ ∧ s₁.scan tokenTable = .ok (some (t, s₂)) := by
  induction h with
  | nil s => cases ht
  | @cons s middle s' u ts hscan _ ih =>
      rcases List.mem_cons.mp ht with rfl | hlater
      · exact ⟨s, middle, .refl s, hscan⟩
      · obtain ⟨s₁, s₂, hreaches, hscan'⟩ := ih hlater
        exact ⟨s₁, s₂, .step hscan hreaches, hscan'⟩

/-- The first token starts where the stream stands. -/
theorem start_of_head (h : s.Passes ts s') (ht : ts.head? = some t) : t.start = s.offset := by
  cases h with
  | nil => cases ht
  | cons hscan _ =>
      obtain rfl := Option.some.inj ht
      exact (scan_place hscan).1

/-- **Contiguity.**  Every token starts where the one before it stops. -/
theorem contiguous (h : s.Passes ts s') : ts.IsChain fun t u => u.start = t.stop := by
  induction h with
  | nil s => exact .nil
  | cons hscan later ih =>
      refine List.isChain_cons.mpr ⟨?_, ih⟩
      intro u hu
      rw [later.start_of_head hu, (scan_place hscan).2.1]

/-- The last token stops where the stream stands then. -/
theorem stop_of_last (h : s.Passes ts s') (ht : ts.getLast? = some t) :
    t.stop = s'.offset := by
  induction h with
  | nil s => cases ht
  | @cons s middle s' u ts hscan later ih =>
      cases later with
      | nil =>
          obtain rfl : u = t := by simpa using ht
          exact (scan_place hscan).2.1
      | cons => exact ih (by simpa [List.getLast?_cons_cons] using ht)

/-- Asking for as many lexemes as are passed gives them in their order. -/
theorem answers (h : s.Passes ts s') :
    s.answers (List.replicate ts.length .lexeme) = ts.map fun t => .ok (some t) := by
  induction h with
  | nil s => rfl
  | cons hscan _ ih =>
      simp [TokenStream.answers, List.replicate_succ, ask, nextLexeme_of_token hscan, ih]

theorem afterCalls (h : s.Passes ts s') :
    s.afterCalls (List.replicate ts.length .lexeme) = s' := by
  induction h with
  | nil s => rfl
  | cons hscan _ ih =>
      simpa [TokenStream.afterCalls, List.replicate_succ, ask, nextLexeme_of_token hscan] using ih

end Passes

end TokenStream

end TildeLang
