import TildeLang.Proofs.Outlook
import TildeLang.Proofs.Vocabulary

/-!
# Where a stream stands

A stream is moved by `scan` only.  One stream **reaches** another when scanning
tokens leads from the first to the second, and everything that reading a token
keeps is kept on the way.  So a stream that is reached from the front of a
source has passed some text of the source and nothing else, and its offset and
its position are those of the text that it has passed.

* `Reaches.locatedIn` — a stream is where it says;
* `outlook_of_trivia` — trivia leave no trace in what a stream still has to give;
* `nextToken_reaches` — looking for a token walks over trivia;
* `nextToken_ends` — no token is left only at the end of the source;
* `mem_outlook` — the tokens of an outlook are scanned somewhere on the way.
-/

namespace TildeLang

/-- Whether no text of a shape, line ends apart, ends in a carriage return. -/
def Shape.sparesReturn : Shape → Bool
  | fixed text => text.getLast? != some '\r'
  | word text => text.getLast? != some '\r'
  | lineEnd => true
  | run _ alphabet => !alphabet.holds '\r'
  | enclosed mark => mark != '\r'
  | restOfLine mark => mark != '\r'

theorem Shape.split_lineEnd {shape : Shape} (hspares : shape.sparesReturn = true)
    {whole taken rest : List Char} (h : shape.split whole = some (taken, rest))
    (hlast : taken.getLast? = some '\r') : rest.head? ≠ some '\n' := by
  have hmem : '\r' ∈ taken := List.mem_of_getLast? hlast
  cases shape with
  | fixed text =>
      obtain ⟨rfl, _⟩ := splitFixed_eq_some_iff.mp h
      simp [sparesReturn, hlast] at hspares
  | word text =>
      obtain ⟨rfl, _⟩ := splitWord_eq_some_iff.mp h
      simp [sparesReturn, hlast] at hspares
  | lineEnd =>
      obtain ⟨_, rfl | ⟨c, rfl, _, hsingle⟩⟩ := splitLineEnd_eq_some h
      · simp at hlast
      · exact hsingle (by simpa using hlast)
  | run least alphabet =>
      have hholds := (splitRun_eq_some h).2.1 '\r' hmem
      simp [sparesReturn, hholds] at hspares
  | enclosed mark =>
      obtain ⟨inner, rfl, _⟩ := splitEnclosed_eq_some h
      rw [← List.cons_append, List.getLast?_concat] at hlast
      simp_all [sparesReturn]
  | restOfLine mark =>
      cases whole with
      | nil => cases h
      | cons c more =>
          simp only [split, splitRestOfLine] at h
          split at h
          · rename_i hmark
            obtain ⟨rfl, rfl⟩ := Prod.mk.inj (Option.some.inj h)
            rcases List.mem_cons.mp hmem with hmark' | hinner
            · simp [sparesReturn, ← hmark, ← hmark'] at hspares
            · have hends := List.mem_takeWhile_imp hinner
              simp [Text.endsLine] at hends
          · cases h

/-- **Line ends stay whole.**  No row takes a carriage return and leaves its
line feed behind. -/
theorem Row.split_lineEnd {row : Row} (hrow : row ∈ tokenTable) {whole taken rest : List Char}
    (h : row.split whole = some (taken, rest)) (hlast : taken.getLast? = some '\r') :
    rest.head? ≠ some '\n' := by
  have hspares : ∀ r ∈ tokenTable, r.shape.sparesReturn = true := by decide
  exact Shape.split_lineEnd (hspares row hrow) (Row.split_eq_some_iff.mp h).1 hlast

namespace TokenStream

/-- Reading a token is taking what the first row takes that takes something. -/
theorem scan_eq_some_iff {table : List Row} {s next : TokenStream} {t : Token} :
    s.scan table = .ok (some (t, next)) ↔
      ∃ row taken rest value, firstMatch? table s.rest = some (row, taken, rest) ∧
        row.reading.value? taken = some value ∧ t = s.tokenAt row taken value ∧
        next = s.after row taken rest := by
  unfold scan
  constructor
  · intro h
    split at h
    · cases h
    · split at h
      · cases h
      · rename_i row taken rest hmatch
        split at h
        · cases h
        · rename_i value hvalue
          simp only [Except.ok.injEq, Option.some.injEq, Prod.mk.injEq] at h
          exact ⟨row, taken, rest, value, hmatch, hvalue, h.1.symm, h.2.symm⟩
  · intro hfound
    obtain ⟨row, taken, rest, value, hmatch, hvalue, rfl, rfl⟩ := hfound
    cases hrest : s.rest with
    | nil =>
        have hsplit := (firstMatch?_mem hmatch).2
        have happend := Row.split_append hsplit
        rw [hrest] at happend
        exact absurd (List.append_eq_nil_iff.mp happend.symm).1 (Row.split_ne_nil hsplit)
    | cons c more =>
        rw [hrest] at hmatch
        simp [hmatch, hvalue]

theorem scan_eq_none_iff {table : List Row} {s : TokenStream} :
    s.scan table = .ok none ↔ s.rest = [] := by
  unfold scan
  cases s.rest with
  | nil => simp
  | cons c more =>
      simp only [reduceCtorEq, iff_false]
      split
      · simp
      · split <;> simp

/-- Scanning tokens leads from one stream to another. -/
inductive Reaches : TokenStream → TokenStream → Prop
  | refl (s : TokenStream) : Reaches s s
  | step {s middle s' : TokenStream} {t : Token}
      (hscan : s.scan tokenTable = .ok (some (t, middle))) (later : Reaches middle s') :
      Reaches s s'

theorem Reaches.trans {s middle s' : TokenStream} (h : s.Reaches middle)
    (h' : middle.Reaches s') : s.Reaches s' := by
  induction h with
  | refl s => exact h'
  | step hscan _ ih => exact .step hscan (ih h')

/-- What is left of a stream is the end of what was left before. -/
theorem Reaches.rest_suffix {s s' : TokenStream} (h : s.Reaches s') : s'.rest <:+ s.rest := by
  induction h with
  | refl s => exact List.suffix_refl _
  | step hscan _ ih => exact ih.trans ⟨_, (scan_rest hscan).1.symm⟩

/-- The stream has passed the first part of a source, and says so. -/
structure LocatedIn (source : List Char) (s : TokenStream) : Prop where
  exists_passed : ∃ passed, source = passed ++ s.rest ∧
    s.offset = Text.byteLength passed ∧ s.position = Position.start.advance passed ∧
    (passed.getLast? = some '\r' → s.rest.head? ≠ some '\n')

theorem LocatedIn.ofText (source : String) : (ofText source).LocatedIn source.toList :=
  ⟨[], rfl, rfl, rfl, by simp⟩

/-- Reading a token keeps a stream where it says. -/
theorem LocatedIn.scan {source : List Char} {s next : TokenStream} {t : Token}
    (h : s.LocatedIn source) (hscan : s.scan tokenTable = .ok (some (t, next))) :
    next.LocatedIn source := by
  obtain ⟨passed, hsource, hoffset, hposition, hcut⟩ := h
  obtain ⟨row, taken, rest, value, hrow, hsplit, _, rfl, rfl⟩ := scan_eq_some hscan
  have hrest : s.rest = taken ++ rest := Row.split_append hsplit
  have hne : taken ≠ [] := Row.split_ne_nil hsplit
  refine ⟨passed ++ taken, ?_, ?_, ?_, ?_⟩
  · simp [after, hsource, hrest]
  · simp [after, hoffset]
  · rw [after_position hrow hsplit, Position.advance_append _ _ _ ?_, ← hposition]
    · intro hlast hhead
      exact hcut hlast (by rw [hrest, List.head?_append, hhead]; rfl)
  · intro hlast
    refine Row.split_lineEnd hrow hsplit ?_
    rw [List.getLast?_append, List.getLast?_eq_some_getLast hne] at hlast
    rwa [List.getLast?_eq_some_getLast hne]

/-- **Location.**  A stream that is reached from one that is where it says is
where it says. -/
theorem Reaches.locatedIn {source : List Char} {s s' : TokenStream} (h : s.Reaches s')
    (hs : s.LocatedIn source) : s'.LocatedIn source := by
  induction h with
  | refl s => exact hs
  | step hscan _ ih => exact ih (hs.scan hscan)

/-- A stream that has passed the whole source stands at its end. -/
theorem LocatedIn.position_of_end {source : List Char} {s : TokenStream}
    (h : s.LocatedIn source) (hend : s.rest = []) :
    s.position = Position.start.advance source := by
  obtain ⟨passed, hsource, _, hposition, _⟩ := h
  rw [hposition, hsource, hend, List.append_nil]

theorem nextToken_of_error {s : TokenStream} {e : LexError}
    (h : s.scan tokenTable = .error e) : s.nextToken = ⟨[], .error e, s⟩ := by
  rw [nextToken]
  split <;> simp_all

theorem nextToken_of_end {s : TokenStream} (h : s.scan tokenTable = .ok none) :
    s.nextToken = ⟨[], .ok none, s⟩ := by
  rw [nextToken]
  split <;> simp_all

theorem nextToken_of_token {s next : TokenStream} {t : Token}
    (h : s.scan tokenTable = .ok (some (t, next))) (htrivia : t.isTrivia = false) :
    s.nextToken = ⟨[t], .ok (some t), next⟩ := by
  rw [nextToken]
  split <;> simp_all

theorem nextToken_of_trivia {s next : TokenStream} {t : Token}
    (h : s.scan tokenTable = .ok (some (t, next))) (htrivia : t.isTrivia = true) :
    s.nextToken = next.nextToken.passing t := by
  rw [nextToken]
  split <;> simp_all

/-- Trivia leave no trace in an outlook. -/
theorem outlook_of_trivia {s next : TokenStream} {t : Token}
    (h : s.scan tokenTable = .ok (some (t, next))) (htrivia : t.isTrivia = true) :
    s.outlook = next.outlook := by
  have hpass := nextToken_of_trivia h htrivia
  rcases hnext : next.nextToken with ⟨scanned, answer, stream⟩
  rw [hnext, Fetch.passing] at hpass
  rcases answer with e | found
  · rw [outlook_of_error hpass, outlook_of_error hnext]
  · cases found with
    | none => rw [outlook_of_end hpass, outlook_of_end hnext]
    | some u => rw [outlook_of_token hpass, outlook_of_token hnext]

/-- Looking for a token walks over trivia up to it. -/
theorem nextToken_reaches {s next : TokenStream} {scanned : List Token} {t : Token}
    (h : s.nextToken = ⟨scanned, .ok (some t), next⟩) :
    ∃ s', s.Reaches s' ∧ s'.scan tokenTable = .ok (some (t, next)) := by
  fun_induction nextToken s generalizing scanned with
  | case1 s e hs => simp at h
  | case2 s hs => simp at h
  | case3 s t' middle hs htrivia ih =>
      obtain ⟨_, hanswer, hstream⟩ := Fetch.mk.inj h
      have hlater : middle.nextToken
          = ⟨middle.nextToken.scanned, .ok (some t), next⟩ := by
        rw [← hanswer, ← hstream]
      obtain ⟨s', hreaches, hscan⟩ := ih hlater
      exact ⟨s', .step hs hreaches, hscan⟩
  | case4 s t' middle hs htrivia =>
      obtain ⟨_, hanswer, rfl⟩ := Fetch.mk.inj h
      obtain rfl : t' = t := by simpa using hanswer
      exact ⟨s, .refl s, hs⟩

/-- Where there is no token any more, the source has been read. -/
theorem nextToken_ends {s next : TokenStream} {scanned : List Token}
    (h : s.nextToken = ⟨scanned, .ok none, next⟩) : s.Reaches next ∧ next.rest = [] := by
  fun_induction nextToken s generalizing scanned with
  | case1 s e hs => simp at h
  | case2 s hs =>
      obtain ⟨_, _, rfl⟩ := Fetch.mk.inj h
      exact ⟨.refl s, scan_eq_none_iff.mp hs⟩
  | case3 s t' middle hs htrivia ih =>
      obtain ⟨_, hanswer, hstream⟩ := Fetch.mk.inj h
      have hlater : middle.nextToken = ⟨middle.nextToken.scanned, .ok none, next⟩ := by
        rw [← hanswer, ← hstream]
      obtain ⟨hreaches, hend⟩ := ih hlater
      exact ⟨.step hs hreaches, hend⟩
  | case4 s t' middle hs htrivia => simp at h

/-- Every token of an outlook is scanned somewhere on the way. -/
theorem mem_outlook {s : TokenStream} {t : Token} (h : t ∈ s.outlook.1) :
    ∃ s' next, s.Reaches s' ∧ s'.scan tokenTable = .ok (some (t, next)) := by
  fun_induction outlook s with
  | case1 s scanned e next hs => simp at h
  | case2 s scanned next hs => simp at h
  | case3 s scanned t' next hs later ih =>
      obtain ⟨s', hreaches, hscan⟩ := nextToken_reaches hs
      rcases List.mem_cons.mp h with rfl | hlater
      · exact ⟨s', next, hreaches, hscan⟩
      · obtain ⟨s'', next', hreaches', hscan'⟩ := ih hlater
        exact ⟨s'', next', hreaches.trans (.step hscan hreaches'), hscan'⟩

end TokenStream

end TildeLang
