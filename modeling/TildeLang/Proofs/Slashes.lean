import Mathlib
import TildeLang.Proofs.Neighbours
import TildeLang.Proofs.Walk
import TildeLang.Proofs.WellFormed

/-!
# Slashes

A slash begins a comment, which the next slash ends, however far away that is and
whatever stands in between.  Only the last slash of a source can be a sign for
division, and so there is one such sign at most, in the tokens of a source and in
its tree.

* `firstMatch?_comment` — a slash begins a comment where another one comes;
* `scan_slash` — what a token is that begins with a slash;
* `given_slashes` — no slash comes after a sign for division, whatever calls are
  mixed;
* `countP_divide_le_one`, `count_divide_le_one` — one sign for division at most,
  in the tokens and in the tree;
* `last_slash_divides` — all of this, for every source.
-/

namespace TildeLang

/-- A token that begins with a slash is a sign for division if no slash is in the
text behind, and a comment up to the next slash otherwise. -/
structure Token.Slash (t : Token) (behind : List Char) : Prop where
  divide : '/' ∉ behind → t.kind = .divide ∧ t.raw.toList = ['/']
  comment : '/' ∈ behind → t.kind = .blockComment ∧ ∃ inner after,
    behind = inner ++ '/' :: after ∧ '/' ∉ inner ∧ t.raw.toList = '/' :: (inner ++ ['/'])

/-- A slash begins a comment where another one comes. -/
theorem firstMatch?_comment {inner : List Char} (h : '/' ∉ inner) (after : List Char) :
    firstMatch? tokenTable ('/' :: (inner ++ '/' :: after))
      = some (.plain .comment .blockComment (.enclosed '/'), '/' :: (inner ++ ['/']), after) := by
  apply firstMatch?_of_isForemost (by decide) (by decide)
  exact Row.split_eq_some_iff.mpr
    ⟨Shape.splitEnclosed_of_not_mem h after, List.cons_ne_nil _ _⟩

namespace TokenStream

variable {s next : TokenStream} {t : Token}

/-- **What a slash is.**  It depends on whether another one comes. -/
theorem scan_slash (h : s.scan tokenTable = .ok (some (t, next)))
    (hslash : t.raw.toList.head? = some '/') :
    ∃ behind, s.rest = '/' :: behind ∧ t.Slash behind := by
  obtain ⟨row, taken, rest, value, hmatch, _, rfl, rfl⟩ := scan_eq_some_iff.mp h
  rw [tokenAt, String.toList_ofList] at hslash
  obtain ⟨more, rfl⟩ := List.head?_eq_some_iff.mp hslash
  have hrest : s.rest = '/' :: (more ++ rest) := Row.split_append (firstMatch?_mem hmatch).2
  rw [hrest] at hmatch
  refine ⟨more ++ rest, hrest, ?_, ?_⟩
  · intro hnone
    rw [firstMatch?_divide hnone] at hmatch
    cases hmatch
    exact ⟨rfl, String.toList_ofList⟩
  · intro hsome
    obtain ⟨inner, after, hbehind, hinner⟩ := List.eq_append_cons_of_mem hsome
    rw [hbehind, firstMatch?_comment hinner] at hmatch
    cases hmatch
    exact ⟨rfl, inner, _, hbehind, hinner, String.toList_ofList⟩

theorem mem_given_answers_cons {call : Call} {later : List Call} :
    t ∈ given (s.answers (call :: later)) ↔
      (s.ask call).answer = .ok (some t) ∨ t ∈ given ((s.ask call).stream.answers later) := by
  rw [answers]
  rcases (s.ask call).answer with e | _ | u
  · simp [given_cons_stop]
  · simp [given_cons_stop]
  · rw [given_cons_token, List.mem_cons, Except.ok.injEq, Option.some.injEq, eq_comm]

/-- The characters of the tokens that are given are characters of the text that
was left. -/
theorem mem_rest_of_mem_given {calls : List Call} (ht : t ∈ given (s.answers calls)) {c : Char}
    (hc : c ∈ t.raw.toList) : c ∈ s.rest := by
  induction calls generalizing s with
  | nil => cases ht
  | cons call later ih =>
      rcases mem_given_answers_cons.mp ht with hanswer | hlater
      · obtain ⟨s', hreaches, hscan⟩ := ask_token hanswer
        refine hreaches.rest_suffix.mem ?_
        rw [(scan_rest hscan).1]
        exact List.mem_append_left _ hc
      · exact (s.ask_reaches call).rest_suffix.mem (ih hlater)

/-- **No slash comes after a sign for division**, whatever calls are mixed. -/
theorem given_slashes (s : TokenStream) (calls : List Call) :
    (given (s.answers calls)).Pairwise fun t u => t.kind = .divide → '/' ∉ u.raw.toList := by
  induction calls generalizing s with
  | nil => exact .nil
  | cons call later ih =>
      have hlater := ih (s.ask call).stream
      rcases hanswer : (s.ask call).answer with e | _ | t
      · simpa [answers, hanswer, given_cons_stop] using hlater
      · simpa [answers, hanswer, given_cons_stop] using hlater
      · rw [answers, hanswer, given_cons_token]
        refine .cons ?_ hlater
        intro u hu hdivide hslash
        obtain ⟨s', _, hscan⟩ := ask_token hanswer
        exact scan_divide hscan hdivide (mem_rest_of_mem_given hu hslash)

end TokenStream

/-! ### One sign for division at most -/

/-- A property that no member has after one that has it holds of one member at
most. -/
theorem countP_le_one_of_pairwise {α : Type} {p : α → Bool} {l : List α}
    (h : l.Pairwise fun a b => p a = true → p b = false) : l.countP p ≤ 1 := by
  induction l with
  | nil => simp
  | cons a l ih =>
      obtain ⟨hfirst, hlater⟩ := List.pairwise_cons.mp h
      by_cases ha : p a = true
      · have hnone : l.countP p = 0 := by
          refine List.countP_eq_zero.mpr fun b hb => ?_
          simp [hfirst b hb ha]
        rw [List.countP_cons_of_pos ha, hnone]
      · rw [List.countP_cons_of_neg ha]
        exact ih hlater

section Divisions

variable {source : String} {ts : List Token} (htokens : tokenize source = .ok ts)
include htokens

/-- The tokens of a source have one sign for division at most. -/
theorem countP_divide_le_one : ts.countP (·.kind == .divide) ≤ 1 := by
  have hslashes := TokenStream.outlook_slashes (TokenStream.ofText source)
  rw [tokenize_eq_ok_iff.mp htokens] at hslashes
  refine countP_le_one_of_pairwise (hslashes.imp_of_mem ?_)
  intro t u _ hu hfree hdivide
  refine Bool.eq_false_iff.mpr fun hagain => hfree (by simpa using hdivide) ?_
  exact (genuine_of_mem htokens hu).divide (by simpa using hagain)

/-- So have the leaves that the tokens write. -/
theorem count_divide_le_one : (ts.filterMap Token.leaf?).count (.op .divide) ≤ 1 := by
  rw [List.count, List.countP_filterMap]
  refine (List.countP_mono_left fun t _ hleaf => ?_).trans (countP_divide_le_one htokens)
  cases hwritten : t.leaf? with
  | none => simp [hwritten] at hleaf
  | some leaf =>
      obtain rfl : leaf = .op .divide := by simpa [hwritten] using hleaf
      exact beq_iff_eq.mpr (Spelling.leaf?_eq_op hwritten)

end Divisions

open TokenStream

/-- **The last slash.**  A token that begins with a slash is a sign for division if
no other slash comes behind that one in the source, and otherwise a comment that
ends with the very next slash.  So, whatever calls are mixed, no token that is
given after a sign for division has a slash; the tokens of a source have one sign
for division at most; and so has every tree that is read from it. -/
theorem last_slash_divides (source : String) :
    (∀ calls call t, (((ofText source).afterCalls calls).ask call).answer = .ok (some t) →
      t.raw.toList.head? = some '/' →
        ∃ before behind, source.toList = before ++ '/' :: behind ∧
          t.start = Text.byteLength before ∧ t.Slash behind) ∧
    (∀ calls, (given ((ofText source).answers calls)).Pairwise fun t u =>
      t.kind = .divide → '/' ∉ u.raw.toList) ∧
    (∀ ts, tokenize source = .ok ts → ts.countP (·.kind == .divide) ≤ 1) ∧
    (∀ program, parse source = .ok program → program.leaves.count (.op .divide) ≤ 1) ∧
    (∀ e, parseExpression source = .ok e → e.leaves.count (.op .divide) ≤ 1) := by
  refine ⟨?_, given_slashes _, fun _ => countP_divide_le_one, ?_, ?_⟩
  · intro calls call t hanswer hslash
    obtain ⟨s, next, before, hscan, hsource, hstart⟩ := exists_scan_of_answer hanswer
    obtain ⟨behind, hrest, hkind⟩ := scan_slash hscan hslash
    rw [hrest] at hsource
    exact ⟨before, behind, hsource, hstart, hkind⟩
  · intro program h
    obtain ⟨ts, htokens, hprogram⟩ := parse_eq_ok_iff.mp h
    rw [hprogram.leaves_eq]
    exact count_divide_le_one htokens
  · intro e h
    obtain ⟨ts, htokens, hexpression⟩ := parseExpression_eq_ok_iff.mp h
    rw [hexpression.leaves_eq]
    exact count_divide_le_one htokens

/-- The first slash begins a comment that the second one ends, and the third is a
sign for division. -/
theorem last_slash_divides_comment :
    (∃ t behind, (((ofText "aa /x/ / bb").afterCalls [.token]).ask .token).answer
        = .ok (some t) ∧ t.kind = .divide ∧ t.Slash behind) ∧
    (∃ t behind, (((ofText "aa /x/ / bb").afterCalls [.token, .lexeme]).ask .lexeme).answer
        = .ok (some t) ∧ t.kind = .blockComment ∧ t.Slash behind) ∧
    (∃ program : Program, parse "aa /x/ / bb" = .ok program ∧
      program.leaves = [.name "aa", .op .divide, .name "bb"] ∧
      program.leaves.count (.op .divide) ≤ 1) := by
  obtain ⟨hslash, _, _, hprogram, _⟩ := last_slash_divides "aa /x/ / bb"
  refine ⟨?_, ?_, ?_⟩
  · have hanswer : (((ofText "aa /x/ / bb").afterCalls [.token]).ask .token).answer
        = .ok (some ⟨.operator, .divide, .text "/", "/", 7, 8, ⟨1, 8⟩⟩) := by cbv
    obtain ⟨_, behind, _, _, hkind⟩ := hslash _ _ _ hanswer rfl
    exact ⟨_, behind, hanswer, rfl, hkind⟩
  · have hanswer : (((ofText "aa /x/ / bb").afterCalls [.token, .lexeme]).ask .lexeme).answer
        = .ok (some ⟨.comment, .blockComment, .text "/x/", "/x/", 3, 6, ⟨1, 4⟩⟩) := by cbv
    obtain ⟨_, behind, _, _, hkind⟩ := hslash _ _ _ hanswer rfl
    exact ⟨_, behind, hanswer, rfl, hkind⟩
  · have hparse : parse "aa /x/ / bb" = .ok ⟨[.expression
        (.binary .divide (.identifier "aa") (.identifier "bb"))]⟩ := by cbv
    exact ⟨_, hparse, rfl, hprogram _ hparse⟩

end TildeLang
